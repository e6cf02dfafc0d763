import ModbusChat.Server.Ids

set_option autoImplicit false

namespace ModbusChat.Server

open BigEndian Effects Wire

namespace Scan

def fdById (records : List ClientRecord) (id : UInt32) : Option Fd :=
  (records.find? fun record => record.id = id).map ClientRecord.fd

-- A client that has not registered has no nickname to be found by.
def idByNickname (records : List ClientRecord) (nickname : Bytes) : Option UInt32 :=
  (records.find? fun record => record.nickname = nickname ∧ nickname ≠ []).map ClientRecord.id

def nicknameTakenByOther (records : List ClientRecord) (nickname : Bytes) (id : UInt32) : Bool :=
  records.any fun record => record.nickname = nickname ∧ nickname ≠ [] ∧ record.id ≠ id

def resolveRecipient (records : List ClientRecord) (chat : ChatPayload) :
    Except Failure (Option UInt32) :=
  if chat.recipientTag = kRecipientById then
    if chat.recipientData.length < kUint32Size then return none
    else do
      let id ← inBounds (readU32Be chat.recipientData)
      return (records.find? fun record => record.id = id).map ClientRecord.id
  else if chat.recipientTag = kRecipientByNickname then do
    return idByNickname records (← decodeString chat.recipientData)
  else return none

end Scan

theorem step_sound {server : ServerViewModel} (sound : server.registry.Sound) {event : Event}
    (may : Allowed server event) : (step server event).registry.Sound := by
  have drop_sound (server : ServerViewModel) (fd : Fd) (sound : server.registry.Sound) :
      (server.drop fd).registry.Sound := by
    cases found : server.registry.findByFd fd with
    | none => rwa [drop_none found]
    | some record =>
      rw [drop_some found, releaseClientId_registry]
      exact ClientRegistry.remove_sound sound found
  cases event with
  | accept fd error =>
    rw [step_accept]
    split_ifs with failed
    · exact sound
    · simp only [ServerViewModel.enroll, allocateClientId_registry]
      exact ClientRegistry.add_sound sound _ may.fresh
  | remove fd => exact step_remove server fd ▸ drop_sound server fd sound
  | data fd incoming =>
    rcases step_data server fd incoming with same | dropped | ⟨nickname, -, mayRegister, renamed⟩
    · rwa [same]
    · exact dropped ▸ drop_sound server fd sound
    · obtain ⟨record, found, -⟩ := mayRegister.connected
      exact renamed ▸ ClientRegistry.setNickname_sound sound found mayRegister.nonempty
        mayRegister.notReserved
  | ban ids => rwa [step_ban, insertBans_registry]
  | requestStop => exact sound
  | disconnectAll =>
    rw [step_disconnectAll]
    exact List.foldlRecOn (motive := fun server => server.registry.Sound) _ _ sound
      fun server sound fd _ => drop_sound server fd sound

theorem reachable_sound {server : ServerViewModel} (reachable : Reachable server) :
    server.registry.Sound := by
  refine reachable.invariant (·.registry.Sound) ?_ ?_
  · rintro _ rfl
    exact ClientRegistry.empty_sound
  · intro server event sound may
    exact step_sound sound may

theorem step_complete {server : ServerViewModel} (tidy : Tidy server)
    (complete : server.registry.Complete) {event : Event} (may : IdsLeft server event) :
    (step server event).registry.Complete := by
  have drop_complete (server : ServerViewModel) (fd : Fd) (complete : server.registry.Complete) :
      (server.drop fd).registry.Complete := by
    cases found : server.registry.findByFd fd with
    | none => rwa [drop_none found]
    | some record =>
      rw [drop_some found, releaseClientId_registry]
      exact ClientRegistry.remove_complete complete found
  cases event with
  | accept fd error =>
    rw [step_accept]
    split_ifs with failed
    · exact complete
    · have assigned := allocateClientId_correct tidy (may.2 failed)
      simp only [ServerViewModel.enroll, allocateClientId_registry]
      refine ClientRegistry.add_complete complete fun other record found held => ?_
      refine assigned.unused (Finset.mem_union_left _ (mem_connectedIds.mpr ?_))
      exact ⟨other, record, found, held⟩
  | remove fd => exact step_remove server fd ▸ drop_complete server fd complete
  | data fd incoming =>
    rcases step_data server fd incoming with same | dropped | ⟨nickname, -, mayRegister, renamed⟩
    · rwa [same]
    · exact dropped ▸ drop_complete server fd complete
    · obtain ⟨record, found, free⟩ := mayRegister.connected
      exact renamed ▸ ClientRegistry.setNickname_complete complete found mayRegister.nonempty free
  | ban ids => rwa [step_ban, insertBans_registry]
  | requestStop => exact complete
  | disconnectAll =>
    rw [step_disconnectAll]
    exact List.foldlRecOn (motive := fun server => server.registry.Complete) _ _ complete
      fun server complete fd _ => drop_complete server fd complete

theorem reachable_complete {server : ServerViewModel}
    (reachable : Runs.Reachable Initial IdsLeft step server) : server.registry.Complete := by
  have both : Tidy server ∧ server.registry.Complete := by
    refine reachable.invariant (fun server => Tidy server ∧ server.registry.Complete) ?_ ?_
    · rintro _ rfl
      exact ⟨initial_tidy, ClientRegistry.empty_complete⟩
    · rintro server event ⟨tidy, complete⟩ may
      exact ⟨step_tidy tidy may, step_complete tidy complete may⟩
  exact both.2

def BanFree (server : ServerViewModel) : Event → Prop
  | .ban _ => False
  | event => Allowed server event

instance (server : ServerViewModel) : (event : Event) → Decidable (BanFree server event)
  | .accept fd error => inferInstanceAs (Decidable (Allowed server (.accept fd error)))
  | .ban _ => .isFalse id
  | .remove _ | .data _ _ | .requestStop | .disconnectAll => .isTrue trivial

theorem BanFree.allowed {server : ServerViewModel} {event : Event} (may : BanFree server event) :
    Allowed server event := by
  cases event with
  | ban ids => exact may.elim
  | _ => exact may

structure RecordFits (fd : Fd) (record : ClientRecord) : Prop where
  nonnegative : ¬ fd < 0
  short : record.nickname.length ≤ kMaxU16Count

theorem reachable_recordFits {server : ServerViewModel} (reachable : Reachable server) :
    ∀ fd record, server.registry.findByFd fd = some record → RecordFits fd record := by
  refine reachable.invariant
    (fun server => ∀ fd record, server.registry.findByFd fd = some record → RecordFits fd record) ?_
      ?_
  · rintro _ rfl fd record found
    simp [ClientRegistry.findByFd] at found
  · intro server event fit _ fd record found
    rcases step_record found with old | ⟨nonnegative, id, rfl⟩ | ⟨old, nickname, here,
      short, -, rfl⟩
    · exact fit fd record old
    · exact ⟨nonnegative, Nat.zero_le _⟩
    · exact ⟨(fit fd old here).nonnegative, short⟩

-- Descriptors are distinct and non-negative, so they alone cannot use up the ids.
theorem roomLeft_of_noneBanned {server : ServerViewModel}
    (fit : ∀ fd record, server.registry.findByFd fd = some record → RecordFits fd record)
    (noneBanned : server.bannedIds = ∅) : RoomLeft server := by
  have positive (fd : Fd) (member : fd ∈ server.registry.clientsByFd.keys.toFinset) :
      0 ≤ fd.toInt := by
    obtain ⟨record, found⟩ := Table.mem_iff_lookup.mp (List.mem_toFinset.mp member)
    have nonnegative := (fit fd record found).nonnegative
    rw [Int32.lt_iff_toInt_lt, Int32.toInt_zero] at nonnegative
    omega
  have bounded : server.registry.clientsByFd.keys.toFinset.card ≤ (Finset.range (2 ^ 31)).card := by
    refine Finset.card_le_card_of_injOn (fun fd => fd.toInt.toNat) ?_ ?_
    · intro fd member
      have := positive fd member
      have := fd.toInt_lt
      simp only [Finset.coe_range, Set.mem_Iio]
      omega
    · intro fd member other otherMember same
      have := positive fd member
      have := positive other otherMember
      simp only at same
      exact Int32.toInt_inj.mp (by omega)
  have connected : server.connectedIds.card ≤ server.registry.clientsByFd.keys.toFinset.card := by
    rw [List.toFinset_card_of_nodup server.registry.clientsByFd.keys_nodup]
    refine (List.toFinset_card_le _).trans ?_
    simp [ClientRegistry.records, Table.values, AList.keys, List.keys]
  rw [RoomLeft, ServerViewModel.usedIds, noneBanned, Finset.union_empty]
  rw [Finset.card_range] at bounded
  omega

theorem step_noneBanned {server : ServerViewModel} {event : Event} (may : BanFree server event)
    (noneBanned : server.bannedIds = ∅) : (step server event).bannedIds = ∅ := by
  cases event with
  | ban ids => exact may.elim
  | accept fd error =>
    rw [step_accept]
    split_ifs <;> simp [ServerViewModel.enroll, noneBanned]
  | remove fd => rw [step_remove, drop_bannedIds, noneBanned]
  | data fd incoming =>
    rcases step_data server fd incoming with same | dropped | ⟨nickname, -, -, renamed⟩
    · rw [same, noneBanned]
    · rw [dropped, drop_bannedIds, noneBanned]
    · rw [renamed, ServerViewModel.rename, noneBanned]
  | requestStop => exact noneBanned
  | disconnectAll => rw [step_disconnectAll, foldl_drop_bannedIds, noneBanned]

theorem idsLeft_of_banFree {server : ServerViewModel}
    (reachable : Runs.Reachable Initial BanFree step server) :
    Runs.Reachable Initial IdsLeft step server := by
  have both : server.bannedIds = ∅ ∧ Runs.Reachable Initial IdsLeft step server := by
    induction reachable with
    | start first =>
      obtain rfl := first
      exact ⟨rfl, .start rfl⟩
    | @next state event earlier may ih =>
      refine ⟨step_noneBanned may ih.1, ih.2.next ?_⟩
      have fit := reachable_recordFits (earlier.weaken fun _ _ may => may.allowed)
      cases event with
      | accept fd error => exact ⟨may.allowed, fun _ => roomLeft_of_noneBanned fit ih.1⟩
      | _ => exact may.allowed
  exact both.2

theorem find?_map_eq_some {α β : Type} {list : List α} {p : α → Bool} {f : α → β} {result : β}
    (unique : ∀ a ∈ list, ∀ b ∈ list, p a → p b → a = b) :
    (list.find? p).map f = some result ↔ ∃ a ∈ list, p a ∧ f a = result := by
  rw [Option.map_eq_some_iff]
  constructor
  · rintro ⟨a, found, value⟩
    exact ⟨a, List.mem_of_find?_eq_some found, List.find?_some found, value⟩
  · rintro ⟨a, member, holds, value⟩
    cases found : list.find? p with
    | none => exact absurd holds (List.find?_eq_none.mp found a member)
    | some b =>
      have same := unique b (List.mem_of_find?_eq_some found) a member (List.find?_some found) holds
      exact ⟨b, rfl, same ▸ value⟩

namespace ClientRegistry

variable {registry : ClientRegistry}

theorem mem_records (sound : registry.Sound) {record : ClientRecord} :
    record ∈ registry.records ↔ registry.findByFd record.fd = some record := by
  rw [records, Table.mem_values]
  constructor
  · rintro ⟨fd, found⟩
    exact (sound.ownFd fd record found).symm ▸ found
  · intro found
    exact ⟨record.fd, found⟩

theorem records_fds (sound : registry.Sound) :
    registry.records.map ClientRecord.fd = registry.allFds := by
  simp only [records, Table.values, allFds, AList.keys, List.keys, List.map_map]
  refine List.map_congr_left fun entry member => ?_
  exact sound.ownFd entry.1 entry.2 (AList.mem_lookup_iff.mpr member)

theorem records_nodup (sound : registry.Sound) : registry.records.Nodup :=
  List.Nodup.of_map ClientRecord.fd (records_fds sound ▸ registry.clientsByFd.keys_nodup)

theorem eq_of_id (sound : registry.Sound) (complete : registry.Complete) {a b : ClientRecord}
    (first : a ∈ registry.records) (second : b ∈ registry.records) (same : a.id = b.id) :
    a = b := by
  rw [mem_records sound] at first second
  rw [complete.distinct second first same, second] at first
  exact (Option.some.inj first).symm

theorem eq_of_nickname (sound : registry.Sound) (complete : registry.Complete) {a b : ClientRecord}
    (first : a ∈ registry.records) (second : b ∈ registry.records) (nonempty : a.nickname ≠ [])
    (same : a.nickname = b.nickname) : a = b := by
  refine eq_of_id sound complete first second ?_
  rw [mem_records sound] at first second
  have byFirst := complete.byNickname _ a first nonempty
  rw [same, complete.byNickname _ b second (same ▸ nonempty)] at byFirst
  exact (Option.some.inj byFirst).symm

theorem fdById_eq_some (sound : registry.Sound) (complete : registry.Complete) {id : UInt32}
    {fd : Fd} :
    registry.fdById id = some fd ↔ ∃ record ∈ registry.records, record.fd = fd ∧
      record.id = id := by
  constructor
  · intro indexed
    obtain ⟨record, found, held⟩ := sound.byId id fd indexed
    have own := sound.ownFd fd record found
    exact ⟨record, (mem_records sound).mpr (own.symm ▸ found), own, held⟩
  · rintro ⟨record, member, rfl, rfl⟩
    exact complete.byId record.fd record ((mem_records sound).mp member)

theorem idByNickname_eq_some (sound : registry.Sound) (complete : registry.Complete)
    {nickname : Bytes} {id : UInt32} :
    registry.idByNickname nickname = some id ↔
      ∃ record ∈ registry.records, record.nickname = nickname ∧ nickname ≠ [] ∧ record.id = id := by
  constructor
  · intro indexed
    obtain ⟨nonempty, fd, record, found, held, named⟩ := sound.byNickname nickname id indexed
    have own := sound.ownFd fd record found
    exact ⟨record, (mem_records sound).mpr (own.symm ▸ found), named, nonempty, held⟩
  · rintro ⟨record, member, rfl, nonempty, rfl⟩
    exact complete.byNickname record.fd record ((mem_records sound).mp member) nonempty

theorem fdById_eq_scan (sound : registry.Sound) (complete : registry.Complete) (id : UInt32) :
    registry.fdById id = Scan.fdById registry.records id := by
  ext fd
  rw [fdById_eq_some sound complete, Scan.fdById, find?_map_eq_some]
  · simp only [decide_eq_true_eq, and_comm]
  · intro a first b second held other
    simp only [decide_eq_true_eq] at held other
    exact eq_of_id sound complete first second (held.trans other.symm)

theorem idByNickname_eq_scan (sound : registry.Sound) (complete : registry.Complete)
    (nickname : Bytes) :
    registry.idByNickname nickname = Scan.idByNickname registry.records nickname := by
  ext id
  rw [idByNickname_eq_some sound complete, Scan.idByNickname, find?_map_eq_some]
  · simp only [decide_eq_true_eq, and_assoc]
  · intro a first b second named other
    simp only [decide_eq_true_eq] at named other
    exact eq_of_nickname sound complete first second (named.1 ▸ named.2)
      (named.1.trans other.1.symm)

theorem nicknameTakenByOther_eq_scan (sound : registry.Sound) (complete : registry.Complete)
    (nickname : Bytes) (id : UInt32) :
    registry.nicknameTakenByOther nickname id =
      Scan.nicknameTakenByOther registry.records nickname id := by
  have taken : registry.nicknameTakenByOther nickname id = true ↔
      ∃ owner, registry.idByNickname nickname = some owner ∧ owner ≠ id := by
    unfold nicknameTakenByOther idByNickname
    cases registry.idsByNickname.lookup nickname <;> simp
  rw [Bool.eq_iff_iff, taken, Scan.nicknameTakenByOther, List.any_eq_true]
  simp only [idByNickname_eq_some sound complete, decide_eq_true_eq]
  constructor
  · rintro ⟨owner, ⟨record, member, named, nonempty, rfl⟩, apart⟩
    exact ⟨record, member, named, nonempty, apart⟩
  · rintro ⟨record, member, named, nonempty, apart⟩
    exact ⟨record.id, ⟨record, member, named, nonempty, rfl⟩, apart⟩

theorem resolveRecipient_eq_scan (sound : registry.Sound) (complete : registry.Complete)
    (chat : ChatPayload) :
    registry.resolveRecipient chat = Scan.resolveRecipient registry.records chat := by
  have byId (id : UInt32) : (if (registry.fdById id).isSome then some id else none) =
      (registry.records.find? fun record => record.id = id).map ClientRecord.id := by
    rw [fdById_eq_scan sound complete, Scan.fdById, Option.isSome_map]
    cases found : registry.records.find? fun record => record.id = id with
    | none => rfl
    | some record =>
      have held : record.id = id := by simpa using List.find?_some found
      simp [held]
  simp only [resolveRecipient, Scan.resolveRecipient, byId, idByNickname_eq_scan sound complete]

def userInfo (record : ClientRecord) : UserInfo := { id := record.id, nickname := record.nickname }

theorem collectUsers_perm : registry.collectUsers.Perm (registry.records.map userInfo) :=
  List.perm_insertionSort _ _

theorem collectUsers_short
    (fit : ∀ fd record, registry.findByFd fd = some record → RecordFits fd record) :
    ∀ user ∈ registry.collectUsers, user.nickname.length ≤ kMaxU16Count := by
  intro user member
  rw [collectUsers_perm.mem_iff, List.mem_map] at member
  obtain ⟨record, here, rfl⟩ := member
  obtain ⟨fd, found⟩ := Table.mem_values.mp here
  exact (fit fd record found).short

theorem collectUsers_sorted (sound : registry.Sound) (complete : registry.Complete) :
    registry.collectUsers.Pairwise (·.id < ·.id) := by
  let before : UserInfo → UserInfo → Prop := fun a b => a.id ≤ b.id
  have : Std.Total before := ⟨fun a b => le_total a.id b.id⟩
  have : IsTrans UserInfo before := ⟨fun _ _ _ => le_trans⟩
  have ordered : registry.collectUsers.Pairwise before := List.pairwise_insertionSort before _
  have distinct : registry.records.Pairwise fun a b => a.id ≠ b.id :=
    (records_nodup sound).pairwise_of_forall_ne fun a first b second apart same =>
      apart (eq_of_id sound complete first second same)
  have apart : registry.collectUsers.Pairwise fun a b => a.id ≠ b.id :=
    (collectUsers_perm.pairwise_iff fun unequal => unequal.symm).mpr
      (List.pairwise_map.mpr distinct)
  exact (ordered.and apart).imp fun both => lt_of_le_of_ne both.1 both.2

theorem resolved_online (sound : registry.Sound) (complete : registry.Complete) {chat : ChatPayload}
    {id : UInt32} (resolved : registry.resolveRecipient chat = .ok (some id)) :
    ∃ record ∈ registry.records, record.id = id ∧ registry.fdById id = some record.fd := by
  have online (record : ClientRecord) (member : record ∈ registry.records) :
      registry.fdById record.id = some record.fd :=
    complete.byId record.fd record ((mem_records sound).mp member)
  rw [resolveRecipient_eq_scan sound complete] at resolved
  unfold Scan.resolveRecipient at resolved
  split_ifs at resolved with byId short byNickname
  · simp at resolved
  · obtain ⟨read, _, found⟩ := bind_eq_ok.mp resolved
    obtain ⟨record, here, held⟩ := Option.map_eq_some_iff.mp (Except.ok.inj found)
    exact ⟨record, List.mem_of_find?_eq_some here, held,
      held ▸ online record (List.mem_of_find?_eq_some here)⟩
  · obtain ⟨nickname, _, found⟩ := bind_eq_ok.mp resolved
    obtain ⟨record, here, held⟩ := Option.map_eq_some_iff.mp (Except.ok.inj found)
    exact ⟨record, List.mem_of_find?_eq_some here, held,
      held ▸ online record (List.mem_of_find?_eq_some here)⟩
  · simp at resolved

end ClientRegistry

theorem unicastTarget_not_offline {server : ServerViewModel} (sound : server.registry.Sound)
    (complete : server.registry.Complete) (chat : ChatPayload) (toLabel : Bytes) :
    unicastTarget server chat toLabel ≠ .ok (.error (ascii "Recipient offline: " ++ toLabel)) := by
  unfold unicastTarget
  cases resolved : server.registry.resolveRecipient chat with
  | error failure => simp
  | ok recipient =>
    cases recipient with
    | none => simp [ascii]
    | some id =>
      obtain ⟨record, -, -, online⟩ := ClientRegistry.resolved_online sound complete resolved
      simp only [ok_bind, online]
      split_ifs
      · simp [ascii]
      · simp

theorem registry_agrees {server : ServerViewModel}
    (reachable : Runs.Reachable Initial BanFree step server) :
    let registry := server.registry
    let records := registry.records
    (∀ fd record, registry.findByFd fd = some record ↔ record ∈ records ∧ record.fd = fd) ∧
    (∀ id fd, registry.fdById id = some fd ↔ ∃ record ∈ records, record.fd = fd ∧ record.id = id) ∧
    (∀ nickname id, nickname ≠ [] → (registry.idByNickname nickname = some id ↔
      ∃ record ∈ records, record.id = id ∧ record.nickname = nickname)) ∧
    records.Pairwise (fun a b => a.fd ≠ b.fd ∧ a.id ≠ b.id ∧
      (a.nickname ≠ [] → a.nickname ≠ b.nickname)) ∧
    (∀ record ∈ records, record.nickname ≠ kBroadcastRecipient) ∧
    (∀ id, registry.fdById id = Scan.fdById records id) ∧
    (∀ nickname, registry.idByNickname nickname = Scan.idByNickname records nickname) ∧
    (∀ nickname id, registry.nicknameTakenByOther nickname id =
      Scan.nicknameTakenByOther records nickname id) ∧
    (∀ chat, registry.resolveRecipient chat = Scan.resolveRecipient records chat) ∧
    (registry.collectUsers.Pairwise (·.id < ·.id) ∧
      registry.collectUsers.Perm (records.map fun record => ⟨record.id, record.nickname⟩)) ∧
    (∀ chat id, registry.resolveRecipient chat = .ok (some id) →
      ∃ record ∈ records, record.id = id ∧ registry.fdById id = some record.fd) ∧
    ∀ chat toLabel, unicastTarget server chat toLabel ≠
      .ok (.error (ascii "Recipient offline: " ++ toLabel)) := by
  have left := idsLeft_of_banFree reachable
  have sound : server.registry.Sound :=
    reachable_sound (reachable.weaken fun _ _ may => may.allowed)
  have complete := reachable_complete left
  refine ⟨?_, fun id fd => ClientRegistry.fdById_eq_some sound complete, ?_, ?_, ?_,
    ClientRegistry.fdById_eq_scan sound complete,
    ClientRegistry.idByNickname_eq_scan sound complete,
    ClientRegistry.nicknameTakenByOther_eq_scan sound complete,
    ClientRegistry.resolveRecipient_eq_scan sound complete,
    ⟨ClientRegistry.collectUsers_sorted sound complete, ClientRegistry.collectUsers_perm⟩,
    fun chat id => ClientRegistry.resolved_online sound complete,
    unicastTarget_not_offline sound complete⟩
  · intro fd record
    rw [ClientRegistry.mem_records sound]
    constructor
    · intro found
      have own := sound.ownFd fd record found
      exact ⟨own.symm ▸ found, own⟩
    · rintro ⟨found, rfl⟩
      exact found
  · intro nickname id nonempty
    rw [ClientRegistry.idByNickname_eq_some sound complete]
    simp only [nonempty, ne_eq, not_false_eq_true, true_and, and_comm]
  · -- two records of one table differ, so they must not share a descriptor, an id or a name
    refine (ClientRegistry.records_nodup sound).pairwise_of_forall_ne ?_
    intro a first b second apart
    refine ⟨fun same => apart ?_, fun same => apart ?_, fun nonempty same => apart ?_⟩
    · rw [ClientRegistry.mem_records sound] at first second
      rw [same, second] at first
      exact (Option.some.inj first).symm
    · exact ClientRegistry.eq_of_id sound complete first second same
    · exact ClientRegistry.eq_of_nickname sound complete first second nonempty same
  · intro record member
    exact sound.notReserved record.fd record ((ClientRegistry.mem_records sound).mp member)

def renamedTwice : ServerViewModel :=
  [Event.accept 3 "", .accept 4 "",
    .data 3 (some (makeFrame .register (writeU16Be 3 ++ ascii "bob"))),
    .data 3 (some (makeFrame .register (writeU16Be 2 ++ ascii "al"))),
    .data 4 (some (makeFrame .register (writeU16Be 3 ++ ascii "bob"))), .remove 3].foldl step {}

theorem registry_agrees_after_renames :
    renamedTwice.registry.idByNickname (ascii "bob") =
      Scan.idByNickname renamedTwice.registry.records (ascii "bob") := by
  have reachable : Runs.Reachable Initial BanFree step renamedTwice :=
    Runs.Reachable.foldl (.start (show Initial {} from rfl)) (by decide +kernel)
  obtain ⟨-, -, -, -, -, -, scanned, -⟩ := registry_agrees reachable
  exact scanned (ascii "bob")

example : renamedTwice.registry.idByNickname (ascii "bob") = some 2 ∧
    renamedTwice.registry.idByNickname (ascii "al") = none := by
  decide +kernel

end ModbusChat.Server
