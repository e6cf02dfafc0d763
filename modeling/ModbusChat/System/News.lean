import ModbusChat.Server.Bans
import ModbusChat.System.Simulation

set_option autoImplicit false

namespace ModbusChat.System

open BigEndian Effects Wire Client
open Server (Fd ServerViewModel ClientRecord ClientRegistry)

def Asks (server : ServerViewModel) (event : Server.Event) (client : Fd) (nickname : Bytes) :
    Prop :=
  ∃ frame, event = .data client (some frame) ∧
    decodeAppMessage frame = .ok { type := .register, payload := .register nickname } ∧
    ∀ record ∈ server.registry.findByFd client, record.id ∉ server.bannedIds

inductive News (server : ServerViewModel) (event : Server.Event) (fd : Fd) : Prop
  | joined {client : Fd} (vacant : server.registry.findByFd client = none) (apart : fd ≠ client)
      (told : inbox fd (event.action.run server).output =
        [{ type := .userJoined
           payload := userBytes { id := server.allocateClientId.1, nickname := [] } }])
      (after : Server.step server event = server.enroll client)
  | left {client : Fd} {record : ClientRecord}
      (found : server.registry.findByFd client = some record)
      (apart : fd ≠ client)
      (told : inbox fd (event.action.run server).output =
        [{ type := .userLeft
           payload := userBytes { id := record.id, nickname := record.nickname } }])
      (after : Server.step server event = server.drop client)
  | named {client : Fd} {record : ClientRecord} {nickname : Bytes}
      (found : server.registry.findByFd client = some record) (apart : fd ≠ client)
      (asks : Asks server event client nickname) (may : Server.MayRegister server client nickname)
      (short : nickname.length ≤ kMaxU16Count)
      (told : inbox fd (event.action.run server).output =
        [{ type := .userJoined, payload := userBytes { id := record.id, nickname } }])
      (after : Server.step server event = server.rename client nickname)
  | renamed {nickname : Bytes} (asks : Asks server event fd nickname)
      (may : Server.MayRegister server fd nickname)
      (told : inbox fd (event.action.run server).output = [])
      (after : Server.step server event = server.rename fd nickname)
  | plain (same : (Server.step server event).registry = server.registry)
      (told : ∀ packet ∈ inbox fd (event.action.run server).output,
        packet.type ≠ .assignId ∧ packet.type ≠ .userJoined ∧ packet.type ≠ .userLeft ∧
          (packet.type = .usersList →
            encodeUsersList server.registry.collectUsers = .ok packet.payload) ∧
          ∀ id key, packet.notice = .peerKey id key → id ∉ server.bannedIds)
  | gone (closed : (Server.step server event).registry.findByFd fd = none)

theorem mem_inbox {fd : Fd} {output : List Server.Effect} {packet : Packet} :
    packet ∈ inbox fd output ↔ (fd, packet.type, packet.payload) ∈ Server.sends output := by
  simp only [inbox, List.mem_map, List.mem_filter, decide_eq_true_eq]
  constructor
  · rintro ⟨⟨target, type, payload⟩, ⟨member, rfl⟩, rfl⟩
    exact member
  · intro member
    exact ⟨_, ⟨member, rfl⟩, rfl⟩

section News

variable {server : ServerViewModel} {fd : Fd}

theorem News.removal {client : Fd} {record here : ClientRecord} {event : Server.Event}
    (removal : Server.OnlyRemoves server client record event)
    (found : server.registry.findByFd client = some record)
    (listed : server.registry.findByFd fd = some here) : News server event fd := by
  obtain ⟨others, -, -, run⟩ := id removal
  have after : Server.step server event = server.drop client := by rw [Server.step, run]
  by_cases same : fd = client
  · refine .gone ?_
    rw [after, Server.findByFd_drop_eq, if_pos same]
  · exact .left found same (inbox_removal removal listed same) after

theorem News.data {client : Fd} {record here : ClientRecord} {incoming : Option Frame}
    (sound : server.registry.Sound)
    (fits : ∀ fd record, server.registry.findByFd fd = some record → Server.RecordFits fd record)
    (found : server.registry.findByFd client = some record)
    (listed : server.registry.findByFd fd = some here) :
    News server (.data client incoming) fd := by
  cases Server.data_cases sound fits found incoming with
  | removed cause removal => exact .removal removal found listed
  | @named frame nickname arrived notBanned decoded may short run =>
    have after : Server.step server (.data client incoming) = server.rename client nickname := by
      rw [Server.step, show (Server.Event.data client incoming).action.run server = _ from run]
    have sent : Server.sends ((Server.Event.data client incoming).action.run server).output =
        ((server.rename client nickname).registry.allFds.filter (· ≠ client)).map fun other =>
          (other, .userJoined, userBytes { id := record.id, nickname }) := by
      rw [show (Server.Event.data client incoming).action.run server = _ from run]
      exact Server.sends_map_send _ _ _
    have distinct : ((server.rename client nickname).registry.allFds.filter (· ≠ client)).Nodup :=
      (AList.keys_nodup _).filter _
    have heard := inbox_broadcast sent distinct fd
    have asks : Asks server (.data client incoming) client nickname := by
      refine ⟨frame, by rw [arrived], decoded, fun other here => ?_⟩
      exact Option.some.inj (found.symm.trans here) ▸ notBanned
    by_cases same : fd = client
    · subst same
      refine .renamed asks may ?_ after
      rw [heard, if_neg (by simp)]
    · refine .named found same asks may short ?_ after
      rw [heard, if_pos]
      refine List.mem_filter.mpr ⟨Server.mem_allFds_rename.mpr ?_, decide_eq_true same⟩
      exact Server.mem_allFds.mpr ⟨here, listed⟩
  | answered notBanned same answers =>
    refine .plain (congrArg ServerViewModel.registry same) fun packet member => ?_
    have answer := answers _ (mem_inbox.mp member)
    obtain ⟨type, payload⟩ := packet
    cases answer with
    | refuses => simp [Packet.notice]
    | lists encoded => simp [encoded, Packet.notice]
    | passes short signed hears relayed =>
      subst signed
      rcases relayed with rfl | rfl | rfl
      · simp [Packet.notice]
      · simpa [notice_peerKey record.id short] using notBanned
      · simp [notice_roomKey record.id short]

theorem news {event : Server.Event} (sound : server.registry.Sound)
    (fits : ∀ fd record, server.registry.findByFd fd = some record → Server.RecordFits fd record)
    (served : Server.Served server event) {here : ClientRecord}
    (listed : server.registry.findByFd fd = some here) : News server event fd := by
  cases event with
  | accept client error =>
    by_cases failed : client < 0
    · refine .plain (by rw [Server.step_accept, if_pos failed]) fun packet member => ?_
      simp [Server.Event.action, Server.acceptClient, failed, Server.display, inbox, Server.sends,
        Server.Effect.sent?] at member
    · have apart : fd ≠ client := by
        rintro rfl
        exact absurd (served.allowed.fresh.symm.trans listed) (by simp)
      refine .joined served.allowed.fresh apart ?_ (by rw [Server.step_accept, if_neg failed])
      have heard := accept_inbox failed server error fd
      rwa [if_neg apart, if_pos (Server.mem_allFds.mpr ⟨here, listed⟩)] at heard
  | remove client =>
    obtain ⟨record, found⟩ := served.connected rfl
    exact .removal (Server.removeClient_onlyRemoves fits found) found listed
  | data client incoming =>
    obtain ⟨record, found⟩ := served.connected rfl
    exact .data sound fits found listed
  | ban ids =>
    refine .plain (by rw [Server.step_ban, Server.insertBans_registry]) fun packet member => ?_
    have sent := mem_inbox.mp member
    change _ ∈ Server.sends ((Server.banIds ids).run server).output at sent
    rcases Server.banIds_sends ids server with silent | ⟨-, told⟩
    · simp [silent] at sent
    · rw [told] at sent
      obtain ⟨target, -, same⟩ := List.mem_map.mp sent
      obtain ⟨-, type, -⟩ : _ ∧ MsgType.bannedIds = packet.type ∧ _ := by
        simpa only [Prod.mk.injEq] using same
      have banned (id : UInt32) (key : Bytes) : packet.notice ≠ .peerKey id key := by
        rw [Packet.notice, ← type]
        dsimp only
        split <;> simp
      simp [← type, banned]
  | requestStop | disconnectAll => exact served.elim

end News

end ModbusChat.System
