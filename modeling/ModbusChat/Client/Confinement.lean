import ModbusChat.Client.Refinement
import ModbusChat.Shared.Traces

set_option autoImplicit false

namespace ModbusChat.Client

open BigEndian Effects Wire

-- What the two threads of a client react to; `start` is the id that `run` waits for first.
inductive ClientEvent where
  | start (incoming : Option Frame)
  | receive (incoming : Option Frame)
  | typed (command : InputCommand)

def ClientEvent.action (cipher : Monocypher) : ClientEvent → ClientM Unit
  | .start incoming => startUp incoming
  | .receive incoming => receiveNext cipher incoming
  | .typed command => handleInputCommand cipher command

/-- The messages that an event may make a client send, in terms of the client it leaves behind. -/
inductive Permitted (cipher : Monocypher) (client : ClientViewModel) : ClientEvent → Packet → Prop
  | register {incoming : Option Frame} {payload : Bytes} (named : client.nickname ≠ [])
      (encoded : encodeRegister client.nickname = .ok payload) :
      Permitted cipher client (.start incoming) { type := .register, payload }
  | listUsers :
      Permitted cipher client (.typed .listUsers) { type := .listUsers, payload := buildListUsers }
  | keyOffer {event : ClientEvent} {peerId : UInt32} {payload : Bytes}
      (cause : event = .typed (.keyOffer peerId) ∨ ∃ frame, event = .receive (some frame))
      (apart : peerId ≠ 0 ∧ peerId ≠ client.myId) (noted : peerId ∈ client.keyOfferedTo)
      (built : buildKeyOffer client.myId peerId client.keyStore.identityPublic = .ok payload) :
      Permitted cipher client event { type := .keyOffer, payload }
  | roomKeyOffer {frame : Frame} {peerId : UInt32} {peerPk roomKey nonce sealed payload : Bytes}
      (known : client.keyStore.peerPublic peerId = some peerPk)
      (held : client.keyStore.roomKey = some roomKey) (size : nonce.length = kNonceSize)
      (shut : sealRoomKey cipher nonce client.keyStore.identitySecret peerPk roomKey = .ok sealed)
      (built : buildRoomKeyOffer client.myId peerId sealed = .ok payload) :
      Permitted cipher client (.receive (some frame)) { type := .roomKeyOffer, payload }
  | direct {command : InputCommand} {recipientId : UInt32}
      {text peerPk nonce sealed payload : Bytes}
      (spoken : command.Says client text recipientId)
      (known : client.keyStore.peerPublic recipientId = some peerPk)
      (size : nonce.length = kNonceSize)
      (shut : encryptForPeer cipher nonce client.keyStore.identitySecret peerPk text = .ok sealed)
      (built : buildChatById client.myId recipientId sealed = .ok payload) :
      Permitted cipher client (.typed command) { type := .chat, payload }
  | broadcast {text roomKey nonce sealed payload : Bytes}
      (held : client.keyStore.roomKey = some roomKey) (size : nonce.length = kNonceSize)
      (shut : encryptWithRoomKey cipher nonce roomKey text = .ok sealed)
      (built : buildChatBroadcast client.myId sealed = .ok payload) :
      Permitted cipher client (.typed (.chatBroadcast text)) { type := .chat, payload }

def ClientViewModel.identity (client : ClientViewModel) : Bytes × Bytes × Bytes :=
  (client.nickname, client.keyStore.identitySecret, client.keyStore.identityPublic)

-- All that `Permitted` reads of a client, apart from the ids that its key was offered to.
def ClientViewModel.standing (client : ClientViewModel) :
    Bytes × UInt32 × PeerKeyStore × Table Bytes UInt32 :=
  (client.nickname, client.myId, client.keyStore, client.idByNickname)

structure Lasting (client : ClientViewModel) (after : ClientViewModel) : Prop where
  standing : after.standing = client.standing
  grows : client.keyOfferedTo ⊆ after.keyOfferedTo

section Permitted

variable {cipher : Monocypher} {client after : ClientViewModel} {event : ClientEvent}
  {packet : Packet}
  {output : List ClientEffect}

theorem Lasting.fields (lasting : Lasting client after) :
    after.nickname = client.nickname ∧ after.myId = client.myId ∧ after.keyStore = client.keyStore ∧
      after.idByNickname = client.idByNickname := by
  have same := lasting.standing
  simp only [ClientViewModel.standing, Prod.mk.injEq] at same
  exact same

theorem Lasting.trans {next : ClientViewModel} (first : Lasting client next)
    (second : Lasting next after) :
    Lasting client after :=
  ⟨second.standing.trans first.standing, first.grows.trans second.grows⟩

theorem chains_lasting : Chains fun client (_ : List ClientEffect) after => Lasting client after :=
  ⟨fun _ => ⟨rfl, subset_rfl⟩, Lasting.trans⟩

theorem Permitted.lasting (permitted : Permitted cipher client event packet)
    (lasting : Lasting client after) : Permitted cipher after event packet := by
  obtain ⟨name, id, store, directory⟩ := lasting.fields
  cases permitted with
  | register named encoded => exact .register (name ▸ named) (name ▸ encoded)
  | listUsers => exact .listUsers
  | keyOffer cause apart noted built =>
    exact .keyOffer cause (id ▸ apart) (lasting.grows noted) (id ▸ store ▸ built)
  | roomKeyOffer known held size shut built =>
    exact .roomKeyOffer (store ▸ known) (store ▸ held) size (store ▸ shut) (id ▸ built)
  | direct spoken known size shut built =>
    refine .direct ?_ (store ▸ known) size (store ▸ shut) (id ▸ built)
    rwa [InputCommand.Says, directory]
  | broadcast held size shut built => exact .broadcast (store ▸ held) size shut (id ▸ built)

theorem Does.lasting {deed : Deed} (does : Does cipher client deed output after)
    (settled : deed.settled = true) : Lasting client after := by
  cases does with
  | quiet quiet => cases quiet <;> exact ⟨rfl, subset_rfl⟩
  | note | offer => exact ⟨rfl, Finset.subset_insert _ _⟩
  | keys | identity | assign | learn => cases settled
  | _ => exact ⟨rfl, subset_rfl⟩

end Permitted

def ClientEvent.deeds : ClientEvent → List Deed
  | .start _ => [.assign, .keys, .register]
  | .receive none => [.close, .stop]
  | .receive (some frame) => frameDeeds frame
  | .typed command => command.deeds

-- What each deed says about the event it comes from.
def ClientEvent.Causes (event : ClientEvent) : Deed → Prop
  | .register => ∃ incoming, event = .start incoming
  | .listUsers => event = .typed .listUsers
  | .offer peerId => event = .typed (.keyOffer peerId) ∨ ∃ frame, event = .receive (some frame)
  | .share => ∃ frame, event = .receive (some frame)
  | .chat command => event = .typed command
  | .close => event = .receive none
  | .quiet | .identity => False
  | .deliver | .keys | .assign | .learn | .stop => True

section Events

variable {cipher : Monocypher} {event : ClientEvent} {client after : ClientViewModel}
  {output : List ClientEffect} {deed : Deed}

theorem action_conducts (cipher : Monocypher) (event : ClientEvent) :
    Conducts cipher event.deeds (event.action cipher) := by
  cases event with
  | start incoming => exact startUp_conducts incoming
  | receive incoming =>
    cases incoming with
    | none => exact receiveNext_closed
    | some frame => exact receiveNext_conducts frame
  | typed command => exact (handleInputCommand_speaks command).conducts

theorem mem_frameDeeds {frame : Frame} (member : deed ∈ frameDeeds frame) :
    deed = .deliver ∨ deed = .keys ∨ deed = .share ∨ (∃ peerId, deed = .offer peerId) ∨
      deed = .learn := by
  unfold frameDeeds at member
  split at member
  · exact (mem_messageDeeds member).imp And.left (.imp id (.imp id (.imp id And.left)))
  · cases member

theorem mem_eventDeeds (member : deed ∈ event.deeds) : event.Causes deed := by
  cases event with
  | start incoming =>
    simp only [ClientEvent.deeds, List.mem_cons, List.not_mem_nil, or_false] at member
    rcases member with rfl | rfl | rfl <;> simp [ClientEvent.Causes]
  | receive incoming =>
    cases incoming with
    | none =>
      simp only [ClientEvent.deeds, List.mem_cons, List.not_mem_nil, or_false] at member
      rcases member with rfl | rfl <;> simp [ClientEvent.Causes]
    | some frame =>
      rcases mem_frameDeeds member with rfl | rfl | rfl | ⟨peerId, rfl⟩ | rfl <;>
        simp [ClientEvent.Causes]
  | typed command =>
    rcases mem_commandDeeds member with rfl | ⟨rfl, rfl⟩ | ⟨peerId, rfl, rfl⟩ | rfl <;>
      simp [ClientEvent.Causes]

theorem Does.permitted (does : Does cipher client deed output after) (caused : event.Causes deed) :
    ∀ packet ∈ packets output, Permitted cipher after event packet := by
  have sent {type : MsgType} {payload : Bytes}
      (permitted : Permitted cipher after event { type, payload }) :
      ∀ packet ∈ packets [.send type payload], Permitted cipher after event packet := by
    simpa [packets, ClientEffect.packet?] using permitted
  by_cases silent : deed.silent = true
  · have none : packets output = [] := List.filterMap_eq_nil_iff.mpr (does.silent silent)
    simp [none]
  cases does with
  | register named encoded =>
    obtain ⟨incoming, rfl⟩ := caused
    exact sent (.register named encoded)
  | listUsers =>
    obtain rfl := caused
    exact sent .listUsers
  | note => simp [packets]
  | offer apart fresh built =>
    exact sent (.keyOffer caused apart (Finset.mem_insert_self _ _) built)
  | share known held size shut built =>
    obtain ⟨frame, rfl⟩ := caused
    exact sent (.roomKeyOffer known held size shut built)
  | direct spoken known size shut built =>
    obtain rfl := caused
    exact sent (.direct spoken known size shut built)
  | broadcast held size shut built =>
    obtain rfl := caused
    exact sent (.broadcast held size shut built)
  | _ => exact absurd rfl silent

end Events

-- What was permitted earlier in the second stage is so at its end.
theorem chains_permitted (cipher : Monocypher) (event : ClientEvent) :
    Chains fun client output after => Lasting client after ∧
      ∀ packet ∈ packets output, Permitted cipher after event packet where
  refl _ := ⟨⟨rfl, subset_rfl⟩, by simp [packets]⟩
  trans first second := by
    refine ⟨first.1.trans second.1, fun packet member => ?_⟩
    rw [packets_append, List.mem_append] at member
    rcases member with early | late
    · exact (first.2 packet early).lasting second.1
    · exact second.2 packet late

theorem action_confined (cipher : Monocypher) (event : ClientEvent) (client : ClientViewModel) :
    ∀ packet ∈ packets ((event.action cipher).run client).output,
      Permitted cipher ((event.action cipher).run client).state event packet := by
  obtain ⟨early, between, late, prepares, speaks, same⟩ :=
    (action_conducts cipher event client).paths
  rw [same, packets_append, silent_path prepares]
  refine (speaks.relates (chains_permitted cipher event) ?_).2
  rintro _ _ _ ⟨deed, member, settled, does⟩
  refine ⟨does.lasting settled, ?_⟩
  rcases List.mem_cons.mp member with rfl | member
  · cases does with
    | quiet quiet => simp [quiet.packets]
  · exact does.permitted (mem_eventDeeds member)

def offeredTo (sent : List Packet) : List UInt32 :=
  sent.filterMap fun packet =>
    match packet.request with
    | .keyOffer peerId _ => some peerId
    | _ => none

structure Orderly (client : ClientViewModel) (output : List ClientEffect)
    (after : ClientViewModel) :
    Prop where
  identity : after.identity = client.identity
  grows : client.keyOfferedTo ⊆ after.keyOfferedTo
  distinct : (offeredTo (packets output)).Nodup
  fresh : ∀ id ∈ offeredTo (packets output), id ∉ client.keyOfferedTo ∧ id ∈ after.keyOfferedTo

theorem Orderly.of_unoffered {client after : ClientViewModel} {output : List ClientEffect}
    (identity : after.identity = client.identity) (grows : client.keyOfferedTo ⊆ after.keyOfferedTo)
    (unoffered : offeredTo (packets output) = []) : Orderly client output after where
  identity := identity
  grows := grows
  distinct := unoffered.symm ▸ List.nodup_nil
  fresh := by simp [unoffered]

-- What comes later meets the ids that were noted before.
theorem chains_orderly : Chains Orderly where
  refl _ := .of_unoffered rfl subset_rfl rfl
  trans first second :=
    { identity := second.identity.trans first.identity
      grows := first.grows.trans second.grows
      distinct := by
        rw [packets_append, offeredTo, List.filterMap_append]
        refine List.Nodup.append first.distinct second.distinct ?_
        intro id early late
        exact (second.fresh id late).1 (first.fresh id early).2
      fresh := by
        intro id member
        rw [packets_append, offeredTo, List.filterMap_append, List.mem_append] at member
        rcases member with early | late
        · obtain ⟨absent, noted⟩ := first.fresh id early
          exact ⟨absent, second.grows noted⟩
        · obtain ⟨absent, noted⟩ := second.fresh id late
          exact ⟨fun known => absent (first.grows known), noted⟩ }

section Orderly

variable {α : Type} {cipher : Monocypher} {deeds : List Deed} {client after : ClientViewModel}
  {output : List ClientEffect}

theorem Does.orderly {deed : Deed} (does : Does cipher client deed output after)
    (other : deed ≠ .identity) : Orderly client output after := by
  cases does with
  | quiet quiet =>
    have silent := quiet.packets
    cases quiet <;> exact .of_unoffered rfl subset_rfl (by rw [silent]; rfl)
  | note => exact .of_unoffered rfl (Finset.subset_insert _ _) rfl
  | @offer peerId payload apart fresh built =>
    have offers : offeredTo (packets [.send .keyOffer payload]) = [peerId] := by
      simp only [packets, List.filterMap_cons, ClientEffect.packet?, offeredTo,
        request_keyOffer built, List.filterMap_nil]
    refine ⟨rfl, Finset.subset_insert _ _, ?_, ?_⟩
    · rw [offers]
      exact List.nodup_singleton _
    · intro id member
      rw [offers, List.mem_singleton] at member
      rw [member]
      exact ⟨fresh, Finset.mem_insert_self _ _⟩
  | share known held size shut built =>
    refine .of_unoffered rfl subset_rfl ?_
    simp only [packets, List.filterMap_cons, ClientEffect.packet?, offeredTo,
      request_roomKeyOffer built, List.filterMap_nil]
  | keys spares =>
    obtain ⟨secret, shared⟩ := PeerKeyStore.step_identity spares client.keyStore
    refine .of_unoffered ?_ subset_rfl rfl
    rw [ClientViewModel.identity, ClientViewModel.identity, secret, shared]
  | identity => exact absurd rfl other
  | close closes => rcases closes with rfl | rfl <;> exact .of_unoffered rfl subset_rfl rfl
  | _ => exact .of_unoffered rfl subset_rfl rfl

theorem Conducted.orderly {outcome : Outcome ClientViewModel ClientEffect Failure α}
    (conducted : Conducted cipher deeds client outcome) (other : .identity ∉ deeds) :
    Orderly client outcome.output outcome.state := by
  refine conducted.relates chains_orderly fun member does => does.orderly ?_
  rintro rfl
  exact other (by simpa using member)

end Orderly

theorem action_orderly (cipher : Monocypher) (event : ClientEvent) (client : ClientViewModel) :
    Orderly client ((event.action cipher).run client).output
      ((event.action cipher).run client).state :=
  Conducted.orderly (action_conducts cipher event client) mem_eventDeeds

structure Sending where
  event : ClientEvent
  client : ClientViewModel
  packet : Packet

section Session

variable (cipher : Monocypher)

def ClientEvent.step (client : ClientViewModel) (event : ClientEvent) : ClientViewModel :=
  ((event.action cipher).run client).state

def ClientEvent.sendings (client : ClientViewModel) (event : ClientEvent) : List Sending :=
  (packets ((event.action cipher).run client).output).map fun packet =>
    { event, client := event.step cipher client, packet }

def sendings (client : ClientViewModel) (events : List ClientEvent) : List Sending :=
  Runs.observed (fun client event => event.sendings cipher client)
    (fun client event => event.step cipher client) client events

theorem sendings_cons (client : ClientViewModel) (event : ClientEvent) (events : List ClientEvent) :
    sendings cipher client (event :: events) =
      event.sendings cipher client ++ sendings cipher (event.step cipher client) events := rfl

theorem ClientEvent.sendings_packets (client : ClientViewModel) (event : ClientEvent) :
    (event.sendings cipher client).map Sending.packet =
      packets ((event.action cipher).run client).output := by
  rw [ClientEvent.sendings, List.map_map]
  exact List.map_id _

/--
Whatever arrives from the server and whatever is typed, in any order: each message is one that the
client may send in the state it is in, under the name and with the identity it started with, and its
key is offered to no id twice.
-/
theorem session_confined (first : ClientViewModel) (events : List ClientEvent) :
    (∀ sending ∈ sendings cipher first events,
      Permitted cipher sending.client sending.event sending.packet ∧
        sending.client.identity = first.identity) ∧
    (events.foldl (fun client event => event.step cipher client) first).identity = first.identity ∧
    (offeredTo ((sendings cipher first events).map Sending.packet)).Nodup ∧
    ∀ id ∈ offeredTo ((sendings cipher first events).map Sending.packet),
      id ∉ first.keyOfferedTo := by
  induction events generalizing first with
  | nil => simp [sendings, Runs.observed, offeredTo]
  | cons event events ih =>
    obtain ⟨permitted, kept, distinct, fresh⟩ := ih (event.step cipher first)
    have orderly := action_orderly cipher event first
    have split : offeredTo ((sendings cipher first (event :: events)).map Sending.packet) =
        offeredTo (packets ((event.action cipher).run first).output) ++
          offeredTo ((sendings cipher (event.step cipher first) events).map Sending.packet) := by
      rw [sendings_cons, List.map_append, ClientEvent.sendings_packets, offeredTo,
        List.filterMap_append]
      rfl
    rw [split]
    refine ⟨fun sending member => ?_, kept.trans orderly.identity, ?_, fun id member => ?_⟩
    · rcases List.mem_append.mp member with early | late
      · obtain ⟨packet, sent, rfl⟩ := List.mem_map.mp early
        exact ⟨action_confined cipher event first packet sent, orderly.identity⟩
      · obtain ⟨may, same⟩ := permitted sending late
        exact ⟨may, same.trans orderly.identity⟩
    · -- a later offer is to an id that was not noted, an earlier one to an id that was
      refine List.Nodup.append orderly.distinct distinct fun id early late => ?_
      exact fresh id late (orderly.fresh id early).2
    · rcases List.mem_append.mp member with early | late
      · exact (orderly.fresh id early).1
      · exact fun known => fresh id late (orderly.grows known)

end Session

end ModbusChat.Client
