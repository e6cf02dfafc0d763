import ModbusChat.Server.ClientRegistry

set_option autoImplicit false

namespace ModbusChat.Server.ClientRegistry

open BigEndian Effects Wire

variable {registry : ClientRegistry}

theorem findByFd_add (fd other : Fd) (id : UInt32) :
    (registry.add fd id).2.findByFd other =
      if other = fd then some { fd, id } else registry.findByFd other :=
  Table.lookup_insert_eq _ _ _ _

theorem fdById_add (fd : Fd) (id other : UInt32) :
    (registry.add fd id).2.fdById other = if other = id then some fd else registry.fdById other :=
  Table.lookup_insert_eq _ _ _ _

@[simp] theorem idByNickname_add (fd : Fd) (id : UInt32) (nickname : Bytes) :
    (registry.add fd id).2.idByNickname nickname = registry.idByNickname nickname := rfl

@[simp] theorem findByFd_forgetNickname (nickname : Bytes) (fd : Fd) :
    (registry.forgetNickname nickname).findByFd fd = registry.findByFd fd := by
  unfold forgetNickname
  split_ifs <;> rfl

@[simp] theorem fdById_forgetNickname (nickname : Bytes) (id : UInt32) :
    (registry.forgetNickname nickname).fdById id = registry.fdById id := by
  unfold forgetNickname
  split_ifs <;> rfl

theorem idByNickname_forgetNickname (nickname other : Bytes) :
    (registry.forgetNickname nickname).idByNickname other =
      if other = nickname ∧ nickname ≠ [] then none else registry.idByNickname other := by
  unfold forgetNickname idByNickname
  split_ifs with empty erased erased
  · exact absurd empty erased.2
  · rfl
  · rw [Table.lookup_erase_eq, if_pos erased.1]
  · rw [Table.lookup_erase_eq, if_neg fun same => erased ⟨same, empty⟩]

theorem remove_none {fd : Fd} (missing : registry.findByFd fd = none) :
    registry.remove fd = (none, registry) := by
  simp only [remove, show registry.clientsByFd.lookup fd = none from missing]

theorem remove_some {fd : Fd} {record : ClientRecord} (found : registry.findByFd fd = some record) :
    (registry.remove fd).1 = some record ∧
      (∀ other, (registry.remove fd).2.findByFd other =
        if other = fd then none else registry.findByFd other) ∧
      (∀ id, (registry.remove fd).2.fdById id =
        if id = record.id then none else registry.fdById id) ∧
      ∀ nickname, (registry.remove fd).2.idByNickname nickname =
        if nickname = record.nickname ∧ record.nickname ≠ [] then none
        else registry.idByNickname nickname := by
  simp only [remove, show registry.clientsByFd.lookup fd = some record from found]
  refine ⟨trivial, fun other => ?_, fun id => ?_, fun nickname => idByNickname_forgetNickname _ _⟩
  · rw [findByFd, Table.lookup_erase_eq]
    exact congrArg (ite (other = fd) none) (findByFd_forgetNickname record.nickname other)
  · rw [fdById, Table.lookup_erase_eq]
    exact congrArg (ite (id = record.id) none) (fdById_forgetNickname record.nickname id)

theorem setNickname_some {fd : Fd} {record : ClientRecord} (nickname : Bytes)
    (found : registry.findByFd fd = some record) :
    (∀ other, (registry.setNickname fd nickname).findByFd other =
        if other = fd then some { record with nickname, registered := true }
        else registry.findByFd other) ∧
      (∀ id, (registry.setNickname fd nickname).fdById id = registry.fdById id) ∧
      ∀ other, (registry.setNickname fd nickname).idByNickname other =
        if other = nickname then some record.id
        else if other = record.nickname ∧ record.nickname ≠ [] then none
        else registry.idByNickname other := by
  simp only [setNickname, found]
  refine ⟨fun other => ?_, fun id => fdById_forgetNickname _ _, fun other => ?_⟩
  · rw [findByFd, Table.lookup_insert_eq]
    exact congrArg (ite (other = fd) _) (findByFd_forgetNickname record.nickname other)
  · rw [idByNickname, Table.lookup_insert_eq]
    exact congrArg (ite (other = nickname) _) (idByNickname_forgetNickname record.nickname other)

/-- No index has an entry that the records do not back. -/
structure Sound (registry : ClientRegistry) : Prop where
  ownFd : ∀ fd record, registry.findByFd fd = some record → record.fd = fd
  byId : ∀ id fd, registry.fdById id = some fd →
    ∃ record, registry.findByFd fd = some record ∧ record.id = id
  byNickname : ∀ nickname id, registry.idByNickname nickname = some id →
    nickname ≠ [] ∧ ∃ fd record, registry.findByFd fd = some record ∧ record.id = id ∧
      record.nickname = nickname
  notReserved : ∀ fd record, registry.findByFd fd = some record →
    record.nickname ≠ kBroadcastRecipient

/-- Every record has its entries in the indexes. -/
structure Complete (registry : ClientRegistry) : Prop where
  byId : ∀ fd record, registry.findByFd fd = some record → registry.fdById record.id = some fd
  byNickname : ∀ fd record, registry.findByFd fd = some record → record.nickname ≠ [] →
    registry.idByNickname record.nickname = some record.id

theorem Complete.distinct (complete : registry.Complete) {fd other : Fd}
    {record client : ClientRecord} (found : registry.findByFd fd = some record)
    (here : registry.findByFd other = some client) (same : client.id = record.id) : other = fd := by
  have first := complete.byId other client here
  rw [same, complete.byId fd record found] at first
  exact (Option.some.inj first).symm

theorem empty_sound : Sound {} where
  ownFd _ _ found := by simp [findByFd] at found
  byId _ _ found := by simp [fdById] at found
  byNickname _ _ found := by simp [idByNickname] at found
  notReserved _ _ found := by simp [findByFd] at found

theorem empty_complete : Complete {} where
  byId _ _ found := by simp [findByFd] at found
  byNickname _ _ found := by simp [findByFd] at found

theorem add_sound (sound : registry.Sound) {fd : Fd} (id : UInt32)
    (fresh : registry.findByFd fd = none) : (registry.add fd id).2.Sound where
  ownFd other record found := by
    rw [findByFd_add] at found
    grind [sound.ownFd other record]
  byId other target found := by
    rw [fdById_add] at found
    split_ifs at found with same
    · obtain rfl := Option.some.inj found
      exact ⟨{ fd, id }, by rw [findByFd_add, if_pos rfl], same.symm⟩
    · obtain ⟨record, here, held⟩ := sound.byId other target found
      refine ⟨record, ?_, held⟩
      rw [findByFd_add, if_neg, here]
      rintro rfl
      simp [fresh] at here
  byNickname nickname other found := by
    obtain ⟨nonempty, owner, record, here, held⟩ := sound.byNickname nickname other found
    refine ⟨nonempty, owner, record, ?_, held⟩
    rw [findByFd_add, if_neg, here]
    rintro rfl
    simp [fresh] at here
  notReserved other record found := by
    rw [findByFd_add] at found
    split_ifs at found with same
    · obtain rfl := Option.some.inj found
      simp [kBroadcastRecipient, ascii]
    · exact sound.notReserved other record found

theorem add_complete (complete : registry.Complete) {fd : Fd} {id : UInt32}
    (unused : ∀ other record, registry.findByFd other = some record → record.id ≠ id) :
    (registry.add fd id).2.Complete where
  byId other record found := by
    rw [findByFd_add] at found
    rw [fdById_add]
    split_ifs at found with same
    · obtain rfl := Option.some.inj found
      rw [if_pos rfl, same]
    · rw [if_neg (unused other record found), complete.byId other record found]
  byNickname other record found nonempty := by
    rw [findByFd_add] at found
    split_ifs at found with same
    · obtain rfl := Option.some.inj found
      exact absurd rfl nonempty
    · exact complete.byNickname other record found nonempty

theorem remove_sound (sound : registry.Sound) {fd : Fd} {record : ClientRecord}
    (found : registry.findByFd fd = some record) : (registry.remove fd).2.Sound := by
  obtain ⟨-, byFd, byId, byNickname⟩ := remove_some found
  constructor
  case ownFd =>
    intro other client here
    rw [byFd] at here
    grind [sound.ownFd other client]
  case byId =>
    intro id other here
    rw [byId] at here
    split_ifs at here with same
    obtain ⟨client, there, held⟩ := sound.byId id other here
    -- an entry that is left leads to somebody else
    refine ⟨client, ?_, held⟩
    rw [byFd, if_neg, there]
    rintro rfl
    rw [found] at there
    exact same (held.symm.trans (congrArg ClientRecord.id (Option.some.inj there).symm))
  case byNickname =>
    intro nickname id here
    rw [byNickname] at here
    split_ifs at here with erased
    obtain ⟨nonempty, other, client, there, held, named⟩ := sound.byNickname nickname id here
    refine ⟨nonempty, other, client, ?_, held, named⟩
    rw [byFd, if_neg, there]
    rintro rfl
    obtain rfl := Option.some.inj (found.symm.trans there)
    exact erased ⟨named.symm, named ▸ nonempty⟩
  case notReserved =>
    intro other client here
    rw [byFd] at here
    grind [sound.notReserved other client]

theorem remove_complete (complete : registry.Complete) {fd : Fd} {record : ClientRecord}
    (found : registry.findByFd fd = some record) :
    (registry.remove fd).2.Complete := by
  obtain ⟨-, byFd, byId, byNickname⟩ := remove_some found
  constructor
  case byId =>
    intro other client here
    rw [byFd] at here
    split_ifs at here with other_eq
    rw [byId, if_neg fun same => other_eq (complete.distinct found here same)]
    exact complete.byId other client here
  case byNickname =>
    intro other client here nonempty
    rw [byFd] at here
    split_ifs at here with other_eq
    have indexed := complete.byNickname other client here nonempty
    rw [byNickname, if_neg, indexed]
    rintro ⟨same, named⟩
    rw [same, complete.byNickname fd record found named] at indexed
    exact other_eq (complete.distinct found here (Option.some.inj indexed).symm)

theorem setNickname_sound (sound : registry.Sound) {fd : Fd} {record : ClientRecord}
    {nickname : Bytes} (found : registry.findByFd fd = some record) (nonempty : nickname ≠ [])
    (notReserved : nickname ≠ kBroadcastRecipient) : (registry.setNickname fd nickname).Sound := by
  obtain ⟨byFd, byId, byNickname⟩ := setNickname_some nickname found
  constructor
  case ownFd =>
    intro other client here
    rw [byFd] at here
    split_ifs at here with same
    · obtain rfl := Option.some.inj here
      exact same ▸ sound.ownFd fd record found
    · exact sound.ownFd other client here
  case byId =>
    intro id other here
    rw [byId] at here
    obtain ⟨client, there, held⟩ := sound.byId id other here
    rw [byFd]
    split_ifs with same
    · subst same
      obtain rfl := Option.some.inj (found.symm.trans there)
      exact ⟨_, rfl, held⟩
    · exact ⟨client, there, held⟩
  case byNickname =>
    intro other id here
    rw [byNickname] at here
    split_ifs at here with same erased
    · exact ⟨same ▸ nonempty, fd, { record with nickname, registered := true },
        by rw [byFd, if_pos rfl], Option.some.inj here, same.symm⟩
    · obtain ⟨otherNonempty, owner, client, there, held, named⟩ := sound.byNickname other id here
      refine ⟨otherNonempty, owner, client, ?_, held, named⟩
      rw [byFd, if_neg, there]
      rintro rfl
      obtain rfl := Option.some.inj (found.symm.trans there)
      exact erased ⟨named.symm, named ▸ otherNonempty⟩
  case notReserved =>
    intro other client here
    rw [byFd] at here
    split_ifs at here with same
    · obtain rfl := Option.some.inj here
      exact notReserved
    · exact sound.notReserved other client here

theorem setNickname_complete (complete : registry.Complete) {fd : Fd} {record : ClientRecord}
    {nickname : Bytes} (found : registry.findByFd fd = some record) (nonempty : nickname ≠ [])
    (free : registry.nicknameTakenByOther nickname record.id = false) :
    (registry.setNickname fd nickname).Complete := by
  obtain ⟨byFd, byId, byNickname⟩ := setNickname_some nickname found
  refine ⟨?_, ?_⟩
  · intro other client here
    rw [byFd] at here
    rw [byId]
    split_ifs at here with same
    · obtain rfl := Option.some.inj here
      exact same ▸ complete.byId fd record found
    · exact complete.byId other client here
  · intro other client here named
    rw [byFd] at here
    split_ifs at here with same
    · obtain rfl := Option.some.inj here
      rw [byNickname, if_pos rfl]
    · have indexed := complete.byNickname other client here named
      have apart : client.id ≠ record.id := fun equal => same (complete.distinct found here equal)
      rw [byNickname, if_neg, if_neg, indexed]
      · rintro ⟨equal, old⟩
        rw [equal, complete.byNickname fd record found old] at indexed
        exact apart (Option.some.inj indexed).symm
      · rintro rfl
        simp only [idByNickname] at indexed
        simp [nicknameTakenByOther, indexed, apart] at free

end ModbusChat.Server.ClientRegistry
