import Mathlib.Order.Interval.Finset.Nat
import Mathlib.Order.Bounds.Basic
import ModbusChat.Server.Steps

set_option autoImplicit false

namespace ModbusChat.Server

open BigEndian Effects Wire

def ServerViewModel.connectedIds (server : ServerViewModel) : Finset UInt32 :=
  (server.registry.records.map ClientRecord.id).toFinset

theorem mem_connectedIds {server : ServerViewModel} {id : UInt32} :
    id ∈ server.connectedIds ↔
      ∃ fd record, server.registry.findByFd fd = some record ∧ record.id = id := by
  simp only [ServerViewModel.connectedIds, List.mem_toFinset, List.mem_map,
    ClientRegistry.records, Table.mem_values, ClientRegistry.findByFd]
  constructor
  · rintro ⟨record, ⟨fd, found⟩, held⟩
    exact ⟨fd, record, found, held⟩
  · rintro ⟨fd, record, found, held⟩
    exact ⟨record, ⟨fd, found⟩, held⟩

def ServerViewModel.usedIds (server : ServerViewModel) : Finset UInt32 :=
  server.connectedIds ∪ server.bannedIds

structure Tidy (server : ServerViewModel) : Prop where
  accounted : ∀ id, 0 < id → id < server.nextId →
    id ∈ server.connectedIds ∨ id ∈ server.freeIds ∨ id ∈ server.bannedIds
  free_not_connected : ∀ id ∈ server.freeIds, id ∉ server.connectedIds
  free_not_banned : ∀ id ∈ server.freeIds, id ∉ server.bannedIds
  connected_below : ∀ id ∈ server.connectedIds, 0 < id ∧ id < server.nextId
  free_below : ∀ id ∈ server.freeIds, 0 < id ∧ id < server.nextId
  nextId_positive : 0 < server.nextId
  zero_not_banned : 0 ∉ server.bannedIds
  distinct : ∀ fd other record client, server.registry.findByFd fd = some record →
    server.registry.findByFd other = some client → client.id = record.id → other = fd

theorem initial_tidy : Tidy {} := by
  have none_connected (id : UInt32) : id ∉ ({} : ServerViewModel).connectedIds := by
    simp [mem_connectedIds, ClientRegistry.findByFd]
  constructor
  case accounted =>
    intro id positive below
    simp only [UInt32.lt_iff_toNat_lt] at positive below
    simp at positive below
    omega
  case free_not_connected =>
    intro id free
    exact none_connected id
  case free_not_banned =>
    intro id _
    simp
  case connected_below =>
    intro id connected
    exact absurd connected (none_connected id)
  case free_below =>
    intro id free
    exact absurd free (OrderedSet.notMem_empty id)
  case nextId_positive => decide
  case zero_not_banned => simp
  case distinct =>
    intro fd other record client found
    simp [ClientRegistry.findByFd] at found

theorem length_le_card (used : Finset UInt32) (first last : Nat) (bound : last ≤ 2 ^ 32)
    (covered : ∀ id : UInt32, first ≤ id.toNat → id.toNat < last → id ∈ used) :
    last - first ≤ used.card := by
  have included : Finset.Ico first last ⊆ used.image UInt32.toNat := by
    intro n member
    rw [Finset.mem_Ico] at member
    have value : (UInt32.ofNat n).toNat = n := by
      rw [UInt32.toNat_ofNat']
      omega
    rw [Finset.mem_image]
    exact ⟨UInt32.ofNat n, covered _ (by omega) (by omega), value⟩
  calc last - first = (Finset.Ico first last).card := (Nat.card_Ico _ _).symm
    _ ≤ (used.image UInt32.toNat).card := Finset.card_le_card included
    _ ≤ used.card := Finset.card_image_le

theorem skipBanned_correct (banned : Finset UInt32) (fuel : Nat) (nextId unbanned : UInt32)
    (later : nextId ≤ unbanned) (near : unbanned.toNat ≤ nextId.toNat + fuel)
    (allowed : unbanned ∉ banned) :
    skipBanned banned fuel nextId ∉ banned ∧ nextId ≤ skipBanned banned fuel nextId ∧
      ∀ id, nextId ≤ id → id < skipBanned banned fuel nextId → id ∈ banned := by
  induction fuel generalizing nextId with
  | zero =>
    obtain rfl : nextId = unbanned := by
      apply UInt32.toNat_inj.mp
      rw [UInt32.le_iff_toNat_le] at later
      omega
    exact ⟨allowed, le_refl _, fun id above below =>
      absurd (lt_of_le_of_lt above below) (lt_irrefl _)⟩
  | succ fuel ih =>
    by_cases skipped : nextId ∈ banned
    · -- the id that is known to be free lies further on, so counting up does not wrap
      have apart : nextId ≠ unbanned := fun same => allowed (same ▸ skipped)
      have less : nextId.toNat < unbanned.toNat :=
        UInt32.lt_iff_toNat_lt.mp (lt_of_le_of_ne later apart)
      have successor : (nextId + 1).toNat = nextId.toNat + 1 := by
        have := unbanned.toNat_lt
        rw [UInt32.toNat_add, UInt32.toNat_one]
        omega
      obtain ⟨free, above, between⟩ := ih (nextId + 1)
        (UInt32.le_iff_toNat_le.mpr (by omega)) (by omega)
      simp only [skipBanned, if_pos skipped]
      refine ⟨free, ?_, ?_⟩
      · rw [UInt32.le_iff_toNat_le] at above ⊢
        omega
      · intro id from_next below
        by_cases same : id = nextId
        · exact same ▸ skipped
        · refine between id ?_ below
          have := UInt32.lt_iff_toNat_lt.mp (lt_of_le_of_ne from_next (Ne.symm same))
          rw [UInt32.le_iff_toNat_le]
          omega
    · simp only [skipBanned, if_neg skipped]
      exact ⟨skipped, le_refl _,
        fun id above below => absurd (lt_of_le_of_lt above below) (lt_irrefl _)⟩

def RoomLeft (server : ServerViewModel) : Prop := server.usedIds.card < 2 ^ 32 - 2

structure Assigned (server : ServerViewModel) (id : UInt32) (after : ServerViewModel) : Prop where
  positive : 0 < id
  unused : id ∉ server.usedIds
  least : ∀ other, 0 < other → other < id → other ∈ server.usedIds
  below : id < after.nextId
  grows : server.nextId ≤ after.nextId
  skipped : ∀ other, server.nextId ≤ other → other < after.nextId →
    other = id ∨ other ∈ server.bannedIds
  free : ∀ other, other ∈ after.freeIds ↔ other ∈ server.freeIds ∧ other ≠ id
  registry : after.registry = server.registry
  bannedIds : after.bannedIds = server.bannedIds

theorem Tidy.mem_usedIds {server : ServerViewModel} (tidy : Tidy server) {id : UInt32}
    (positive : 0 < id) (below : id < server.nextId) (notFree : id ∉ server.freeIds) :
    id ∈ server.usedIds := by
  rw [ServerViewModel.usedIds, Finset.mem_union]
  rcases tidy.accounted id positive below with connected | free | banned
  · exact .inl connected
  · exact absurd free notFree
  · exact .inr banned

theorem exists_not_banned {server : ServerViewModel} (tidy : Tidy server) (room : RoomLeft server)
    (noneFree : ∀ id, id ∉ server.freeIds) :
    ∃ id, server.nextId ≤ id ∧ id.toNat ≤ server.nextId.toNat + server.bannedIds.card ∧
      id ∉ server.bannedIds := by
  by_contra! banned
  have short := length_le_card server.bannedIds server.nextId.toNat
    (min (server.nextId.toNat + server.bannedIds.card + 1) (2 ^ 32)) (by omega)
    (fun id above below => banned id (UInt32.le_iff_toNat_le.mpr above) (by omega))
  have positive := UInt32.lt_iff_toNat_lt.mp tidy.nextId_positive
  -- The banned ids are too few to cover the interval, unless it is cut off where the ids end.
  have all := length_le_card server.usedIds 1 (2 ^ 32) (le_refl _) ?_
  · unfold RoomLeft at room
    omega
  · intro id above _
    by_cases below : id < server.nextId
    · exact tidy.mem_usedIds (UInt32.lt_iff_toNat_lt.mpr above) below (noneFree id)
    · refine Finset.mem_union_right _ (banned id (not_lt.mp below) ?_)
      have := id.toNat_lt
      omega

theorem allocateClientId_correct {server : ServerViewModel} (tidy : Tidy server)
    (room : RoomLeft server) :
    Assigned server server.allocateClientId.1 server.allocateClientId.2 := by
  rcases split : server.freeIds with ⟨_ | ⟨id, rest⟩, sorted⟩
  · -- no id has been given back: the next one that is not banned
    have noneFree (id : UInt32) : id ∉ server.freeIds := by simp [split, OrderedSet.mem_elements]
    obtain ⟨unbanned, later, near, allowed⟩ := exists_not_banned tidy room noneFree
    obtain ⟨notBanned, above, between⟩ := skipBanned_correct server.bannedIds
      server.bannedIds.card server.nextId unbanned later near allowed
    generalize assigned : skipBanned server.bannedIds server.bannedIds.card server.nextId = id
      at notBanned above between
    have least (other : UInt32) (positive : 0 < other) (less : other < id) :
        other ∈ server.usedIds := by
      by_cases old : other < server.nextId
      · exact tidy.mem_usedIds positive old (noneFree other)
      · exact Finset.mem_union_right _ (between other (not_lt.mp old) less)
    -- all ids below this one are in use, so it cannot be the last there is
    have successor : (id + 1).toNat = id.toNat + 1 := by
      have short := length_le_card server.usedIds 1 id.toNat id.toNat_lt.le
        (fun other positive less =>
          least other (UInt32.lt_iff_toNat_lt.mpr positive) (UInt32.lt_iff_toNat_lt.mpr less))
      unfold RoomLeft at room
      rw [UInt32.toNat_add, UInt32.toNat_one]
      omega
    have result :
        server.allocateClientId = (id, { server with freeIds := ∅, nextId := id + 1 }) := by
      simp only [ServerViewModel.allocateClientId, split, takeFree, assigned]
    rw [result]
    refine ⟨lt_of_lt_of_le tidy.nextId_positive above, ?_, least, ?_, ?_, ?_, ?_, rfl, rfl⟩
    · rw [ServerViewModel.usedIds, Finset.mem_union, not_or]
      exact ⟨fun connected => absurd (tidy.connected_below id connected).2 (not_lt.mpr above),
        notBanned⟩
    · exact UInt32.lt_iff_toNat_lt.mpr (by rw [successor]; exact Nat.lt_succ_self _)
    · rw [UInt32.le_iff_toNat_le] at above ⊢
      rw [successor]
      omega
    · intro other from_next less
      by_cases same : other = id
      · exact .inl same
      · refine .inr (between other from_next (lt_of_le_of_ne ?_ same))
        rw [UInt32.lt_iff_toNat_lt, successor] at less
        rw [UInt32.le_iff_toNat_le]
        omega
    · intro other
      simp [noneFree other]
  · -- the least of the ids that were given back, none of which is banned
    have free : id ∈ server.freeIds := by simp [split, OrderedSet.mem_elements]
    have result : server.allocateClientId =
        (id, { server with freeIds := ⟨rest, sorted.tail⟩ }) := by
      simp only [ServerViewModel.allocateClientId, split, takeFree,
        if_neg (tidy.free_not_banned id free)]
    obtain ⟨positive, below⟩ := tidy.free_below id free
    have first := (List.pairwise_cons.mp sorted).1
    rw [result]
    refine ⟨positive, ?_, ?_, below, le_refl _, ?_, ?_, rfl, rfl⟩
    · rw [ServerViewModel.usedIds, Finset.mem_union, not_or]
      exact ⟨tidy.free_not_connected id free, tidy.free_not_banned id free⟩
    · intro other otherPositive less
      refine tidy.mem_usedIds otherPositive (lt_trans less below) ?_
      rw [split, OrderedSet.mem_elements, List.mem_cons, not_or]
      exact ⟨ne_of_lt less, fun later => lt_asymm less (first other later)⟩
    · intro other above less
      exact absurd (lt_of_le_of_lt above less) (lt_irrefl _)
    · intro other
      simp only [split, OrderedSet.mem_elements, List.mem_cons]
      constructor
      · intro later
        exact ⟨.inr later, (ne_of_lt (first other later)).symm⟩
      · rintro ⟨same | later, apart⟩
        · exact absurd same apart
        · exact later

theorem connectedIds_add {server : ServerViewModel} {fd : Fd} {id : UInt32}
    (fresh : server.registry.findByFd fd = none) (other : UInt32) :
    other ∈ { server with registry := (server.registry.add fd id).2 }.connectedIds ↔
      other = id ∨ other ∈ server.connectedIds := by
  simp only [mem_connectedIds, ClientRegistry.findByFd_add]
  constructor
  · rintro ⟨owner, record, found, rfl⟩
    split_ifs at found with same
    · exact .inl (Option.some.inj found ▸ rfl)
    · exact .inr ⟨owner, record, found, rfl⟩
  · rintro (rfl | ⟨owner, record, found, held⟩)
    · exact ⟨fd, { fd, id := other }, by simp, rfl⟩
    · refine ⟨owner, record, ?_, held⟩
      rw [if_neg, found]
      rintro rfl
      simp [fresh] at found

theorem enroll_tidy {server : ServerViewModel} (tidy : Tidy server)
    (room : RoomLeft server) {fd : Fd}
    (fresh : server.registry.findByFd fd = none) : Tidy (server.enroll fd) := by
  have assigned := allocateClientId_correct tidy room
  unfold ServerViewModel.enroll
  generalize server.allocateClientId = allocation at assigned ⊢
  obtain ⟨id, after⟩ := allocation
  have registry : after.registry = server.registry := assigned.registry
  have connected (other : UInt32) :
      other ∈ { after with registry := (after.registry.add fd id).2 }.connectedIds ↔
        other = id ∨ other ∈ server.connectedIds := by
    rw [connectedIds_add (registry ▸ fresh)]
    simp only [mem_connectedIds, registry]
  obtain ⟨notConnected, notBanned⟩ : id ∉ server.connectedIds ∧ id ∉ server.bannedIds := by
    simpa [ServerViewModel.usedIds] using assigned.unused
  constructor
  case accounted =>
    intro other positive below
    rw [connected, assigned.free, assigned.bannedIds]
    -- below the old bound the ids were accounted for, from there on all but one are banned
    by_cases old : other < server.nextId
    · have := tidy.accounted other positive old
      tauto
    · have := assigned.skipped other (not_lt.mp old) below
      tauto
  case free_not_connected =>
    intro other free
    rw [assigned.free] at free
    rw [connected, not_or]
    exact ⟨free.2, tidy.free_not_connected other free.1⟩
  case free_not_banned =>
    intro other free
    rw [assigned.free] at free
    rw [assigned.bannedIds]
    exact tidy.free_not_banned other free.1
  case connected_below =>
    intro other held
    rcases (connected other).mp held with rfl | held
    · exact ⟨assigned.positive, assigned.below⟩
    · exact (tidy.connected_below other held).imp_right fun below =>
        lt_of_lt_of_le below assigned.grows
  case free_below =>
    intro other free
    rw [assigned.free] at free
    exact (tidy.free_below other free.1).imp_right fun below => lt_of_lt_of_le below assigned.grows
  case nextId_positive => exact lt_of_lt_of_le tidy.nextId_positive assigned.grows
  case zero_not_banned =>
    rw [assigned.bannedIds]
    exact tidy.zero_not_banned
  case distinct =>
    intro first second record client found here same
    simp only [ClientRegistry.findByFd_add, registry] at found here
    have held (owner : Fd) (holder : ClientRecord)
        (there : server.registry.findByFd owner = some holder) : holder.id ≠ id := by
      rintro rfl
      exact notConnected (mem_connectedIds.mpr ⟨owner, holder, there, rfl⟩)
    split_ifs at found here with firstNew secondNew secondNew
    · rw [firstNew, secondNew]
    · obtain rfl := Option.some.inj found
      exact absurd same (held second client here)
    · obtain rfl := Option.some.inj here
      exact absurd same.symm (held first record found)
    · exact tidy.distinct first second record client found here same

theorem mem_connectedIds_drop {server : ServerViewModel} (tidy : Tidy server) {fd : Fd}
    {record : ClientRecord} (found : server.registry.findByFd fd = some record) (id : UInt32) :
    id ∈ (server.drop fd).connectedIds ↔ id ∈ server.connectedIds ∧ id ≠ record.id := by
  obtain ⟨-, byFd, -, -⟩ := ClientRegistry.remove_some found
  simp only [mem_connectedIds, drop_some found, releaseClientId_registry, byFd]
  constructor
  · rintro ⟨owner, client, here, rfl⟩
    split_ifs at here with same
    exact ⟨⟨owner, client, here, rfl⟩,
      fun held => same (tidy.distinct fd owner record client found here held)⟩
  · rintro ⟨⟨owner, client, here, rfl⟩, apart⟩
    refine ⟨owner, client, ?_, rfl⟩
    rw [if_neg, here]
    rintro rfl
    exact apart (congrArg ClientRecord.id (Option.some.inj (here.symm.trans found)))

theorem drop_tidy {server : ServerViewModel} (tidy : Tidy server) (fd : Fd) :
    Tidy (server.drop fd) := by
  cases found : server.registry.findByFd fd with
  | none => rwa [drop_none found]
  | some record =>
    have own : record.id ∈ server.connectedIds := mem_connectedIds.mpr ⟨fd, record, found, rfl⟩
    have connected := mem_connectedIds_drop tidy found
    have free (id : UInt32) : id ∈ (server.drop fd).freeIds ↔
        id ∈ server.freeIds ∨ id = record.id ∧ record.id ∉ server.bannedIds := by
      rw [drop_some found, mem_releaseClientId_freeIds]
    have bannedIds : (server.drop fd).bannedIds = server.bannedIds := by simp [drop_some found]
    have nextId : (server.drop fd).nextId = server.nextId := by simp [drop_some found]
    constructor
    case accounted =>
      intro id positive below
      rw [connected, free, bannedIds]
      have := tidy.accounted id positive (nextId ▸ below)
      -- the id of the client that goes is given back, unless it is banned
      by_cases same : id = record.id
      · subst same
        tauto
      · tauto
    case free_not_connected =>
      intro id member
      rw [connected]
      rcases (free id).mp member with old | ⟨rfl, -⟩
      · exact fun still => tidy.free_not_connected id old still.1
      · exact fun still => still.2 rfl
    case free_not_banned =>
      intro id member
      rw [bannedIds]
      rcases (free id).mp member with old | ⟨rfl, notBanned⟩
      · exact tidy.free_not_banned id old
      · exact notBanned
    case connected_below =>
      intro id still
      rw [nextId]
      exact tidy.connected_below id ((connected id).mp still).1
    case free_below =>
      intro id member
      rw [nextId]
      rcases (free id).mp member with old | ⟨rfl, -⟩
      · exact tidy.free_below id old
      · exact tidy.connected_below record.id own
    case nextId_positive => exact nextId ▸ tidy.nextId_positive
    case zero_not_banned => exact bannedIds ▸ tidy.zero_not_banned
    case distinct =>
      intro first second holder client here there same
      rw [drop_some found, releaseClientId_registry,
        (ClientRegistry.remove_some found).2.1] at here there
      split_ifs at here there
      exact tidy.distinct first second holder client here there same

theorem rename_tidy {server : ServerViewModel} (tidy : Tidy server) {fd : Fd} {nickname : Bytes}
    (may : MayRegister server fd nickname) : Tidy (server.rename fd nickname) := by
  obtain ⟨record, found, -⟩ := may.connected
  obtain ⟨byFd, -, -⟩ := ClientRegistry.setNickname_some nickname found
  -- A renamed record keeps its id.
  have holder (other : Fd) (client : ClientRecord)
      (here : (server.rename fd nickname).registry.findByFd other = some client) :
      ∃ old, server.registry.findByFd other = some old ∧ old.id = client.id := by
    rw [ServerViewModel.rename, byFd] at here
    split_ifs at here with same
    · obtain rfl := Option.some.inj here
      exact ⟨record, same ▸ found, rfl⟩
    · exact ⟨client, here, rfl⟩
  have connected : (server.rename fd nickname).connectedIds = server.connectedIds := by
    ext id
    simp only [mem_connectedIds]
    constructor
    · rintro ⟨other, client, here, rfl⟩
      obtain ⟨old, there, held⟩ := holder other client here
      exact ⟨other, old, there, held⟩
    · rintro ⟨other, client, here, rfl⟩
      rw [ServerViewModel.rename]
      by_cases same : other = fd
      · subst same
        obtain rfl := Option.some.inj (here.symm.trans found)
        exact ⟨other, { client with nickname, registered := true }, by rw [byFd, if_pos rfl], rfl⟩
      · exact ⟨other, client, by rw [byFd, if_neg same, here], rfl⟩
  constructor
  case accounted =>
    rw [connected]
    exact tidy.accounted
  case free_not_connected =>
    rw [connected]
    exact tidy.free_not_connected
  case free_not_banned => exact tidy.free_not_banned
  case connected_below =>
    rw [connected]
    exact tidy.connected_below
  case free_below => exact tidy.free_below
  case nextId_positive => exact tidy.nextId_positive
  case zero_not_banned => exact tidy.zero_not_banned
  case distinct =>
    intro first second record client here there same
    obtain ⟨old, oldHere, oldId⟩ := holder first record here
    obtain ⟨other, otherHere, otherId⟩ := holder second client there
    exact tidy.distinct first second old other oldHere otherHere (by rw [oldId, otherId, same])

theorem insertBans_tidy (ids : List UInt32) {server : ServerViewModel} (tidy : Tidy server) :
    Tidy (insertBans ids server).2 := by
  induction ids generalizing server with
  | nil => exact tidy
  | cons id ids ih =>
    by_cases zero : id = 0
    · simpa only [insertBans, if_pos zero] using ih tidy
    · simp only [insertBans, if_neg zero]
      apply ih
      constructor
      case accounted =>
        intro other positive below
        rw [OrderedSet.mem_erase, Finset.mem_insert]
        have := tidy.accounted other positive below
        change other ∈ server.connectedIds ∨ _
        tauto
      case free_not_connected =>
        intro other free
        exact tidy.free_not_connected other (OrderedSet.mem_erase.mp free).2
      case free_not_banned =>
        intro other free
        obtain ⟨apart, old⟩ := OrderedSet.mem_erase.mp free
        rw [Finset.mem_insert, not_or]
        exact ⟨apart, tidy.free_not_banned other old⟩
      case connected_below => exact tidy.connected_below
      case free_below =>
        intro other free
        exact tidy.free_below other (OrderedSet.mem_erase.mp free).2
      case nextId_positive => exact tidy.nextId_positive
      case zero_not_banned =>
        rw [Finset.mem_insert, not_or]
        exact ⟨Ne.symm zero, tidy.zero_not_banned⟩
      case distinct => exact tidy.distinct

/-- The events of runs that accept clients only while ids are left. -/
def IdsLeft (server : ServerViewModel) : Event → Prop
  | .accept fd error => Allowed server (.accept fd error) ∧ (¬ fd < 0 → RoomLeft server)
  | event => Allowed server event

instance (server : ServerViewModel) : (event : Event) → Decidable (IdsLeft server event)
  | .accept fd error => inferInstanceAs (Decidable (Allowed server (.accept fd error) ∧
      (¬ fd < 0 → server.usedIds.card < 2 ^ 32 - 2)))
  | .remove _ | .data _ _ | .ban _ | .requestStop | .disconnectAll => .isTrue trivial

theorem IdsLeft.allowed {server : ServerViewModel} {event : Event} (left : IdsLeft server event) :
    Allowed server event := by
  cases event with
  | accept fd error => exact left.1
  | _ => exact left

theorem Allowed.fresh {server : ServerViewModel} {fd : Fd} {error : String}
    (allowed : Allowed server (.accept fd error)) : server.registry.findByFd fd = none :=
  AList.lookup_eq_none.mpr allowed

theorem step_tidy {server : ServerViewModel} (tidy : Tidy server) {event : Event}
    (may : IdsLeft server event) : Tidy (step server event) := by
  cases event with
  | accept fd error =>
    rw [step_accept]
    split_ifs with failed
    · exact tidy
    · exact enroll_tidy tidy (may.2 failed) may.1.fresh
  | remove fd => exact step_remove server fd ▸ drop_tidy tidy fd
  | data fd incoming =>
    rcases step_data server fd incoming with same | dropped | ⟨nickname, -, mayRegister, renamed⟩
    · rwa [same]
    · exact dropped ▸ drop_tidy tidy fd
    · exact renamed ▸ rename_tidy tidy mayRegister
  | ban ids => exact step_ban server ids ▸ insertBans_tidy ids tidy
  | requestStop => exact ⟨tidy.1, tidy.2, tidy.3, tidy.4, tidy.5, tidy.6, tidy.7, tidy.8⟩
  | disconnectAll =>
    rw [step_disconnectAll]
    exact List.foldlRecOn (motive := Tidy) _ _ tidy fun server tidy fd _ => drop_tidy tidy fd

theorem run_tidy {first : ServerViewModel → Prop} (start : ∀ server, first server → Tidy server)
    {server : ServerViewModel} (reachable : Runs.Reachable first IdsLeft step server) :
    Tidy server := by
  refine reachable.invariant Tidy start ?_
  intro server event tidy may
  exact step_tidy tidy may

theorem reachable_tidy {server : ServerViewModel}
    (reachable : Runs.Reachable Initial IdsLeft step server) : Tidy server := by
  refine run_tidy ?_ reachable
  rintro _ rfl
  exact initial_tidy

@[simp] theorem drop_bannedIds (server : ServerViewModel) (fd : Fd) :
    (server.drop fd).bannedIds = server.bannedIds := by
  cases found : server.registry.findByFd fd with
  | none => rw [drop_none found]
  | some record => simp [drop_some found]

theorem foldl_drop_bannedIds (fds : List Fd) (server : ServerViewModel) :
    (fds.foldl ServerViewModel.drop server).bannedIds = server.bannedIds := by
  induction fds generalizing server with
  | nil => rfl
  | cons fd fds ih => rw [List.foldl_cons, ih, drop_bannedIds]

theorem insertBans_subset (ids : List UInt32) (server : ServerViewModel) :
    server.bannedIds ⊆ (insertBans ids server).2.bannedIds := by
  induction ids generalizing server with
  | nil => exact Finset.Subset.refl _
  | cons id ids ih =>
    by_cases zero : id = 0
    · simpa only [insertBans, if_pos zero] using ih server
    · simp only [insertBans, if_neg zero]
      have rest := ih { server with
        bannedIds := insert id server.bannedIds
        freeIds := server.freeIds.erase id }
      exact (Finset.subset_insert id _).trans rest

theorem step_bannedIds (server : ServerViewModel) (event : Event) :
    server.bannedIds ⊆ (step server event).bannedIds := by
  cases event with
  | accept fd error =>
    rw [step_accept]
    split_ifs <;> simp [ServerViewModel.enroll]
  | remove fd => simp [step_remove]
  | data fd incoming =>
    rcases step_data server fd incoming with same | dropped | ⟨nickname, -, -, renamed⟩
    · rw [same]
    · simp [dropped]
    · simp [renamed, ServerViewModel.rename]
  | ban ids => exact step_ban server ids ▸ insertBans_subset ids server
  | requestStop => simp [step_requestStop]
  | disconnectAll => rw [step_disconnectAll, foldl_drop_bannedIds]

theorem findByFd_accept {server : ServerViewModel} {fd : Fd} {error : String}
    (accepted : ¬ fd < 0) :
    (step server (.accept fd error)).registry.findByFd fd =
      some { fd, id := server.allocateClientId.1 } := by
  rw [step_accept, if_neg accepted]
  exact (ClientRegistry.findByFd_add _ _ _).trans (if_pos rfl)

/-- The id of a client accepted next is the least positive number not in use. -/
theorem acceptClient_least {server : ServerViewModel}
    (reachable : Runs.Reachable Initial IdsLeft step server) :
    Tidy server ∧
    (∀ fd error, ¬ fd < 0 → IdsLeft server (.accept fd error) →
      ∃ id, (step server (.accept fd error)).registry.findByFd fd = some { fd, id } ∧
        IsLeast {n : Nat | 0 < n ∧ ∀ used ∈ server.connectedIds ∪ server.bannedIds, used.toNat ≠ n}
          id.toNat) ∧
    ∀ later, Runs.Reachable (· = server) IdsLeft step later →
      server.bannedIds ⊆ later.bannedIds ∧
      ∀ fd error record, ¬ fd < 0 → IdsLeft later (.accept fd error) →
        (step later (.accept fd error)).registry.findByFd fd = some record →
        record.id ≠ 0 ∧ record.id ∉ server.bannedIds := by
  have tidy := reachable_tidy reachable
  refine ⟨tidy, ?_, ?_⟩
  · intro fd error accepted may
    have assigned := allocateClientId_correct tidy (may.2 accepted)
    refine ⟨_, findByFd_accept accepted, ⟨UInt32.lt_iff_toNat_lt.mp assigned.positive, ?_⟩, ?_⟩
    · intro used member same
      exact assigned.unused (UInt32.toNat_inj.mp same ▸ member)
    · rintro n ⟨positive, unused⟩
      by_contra! less
      have value : (UInt32.ofNat n).toNat = n := by
        have := server.allocateClientId.1.toNat_lt
        rw [UInt32.toNat_ofNat']
        omega
      refine unused (UInt32.ofNat n) (assigned.least _ ?_ ?_) value
      · exact UInt32.lt_iff_toNat_lt.mpr (by simpa [value] using positive)
      · exact UInt32.lt_iff_toNat_lt.mpr (by simpa [value] using less)
  · intro later run
    have laterTidy : Tidy later := by
      refine run_tidy ?_ run
      rintro _ rfl
      exact tidy
    have grown : server.bannedIds ⊆ later.bannedIds := by
      refine run.invariant (server.bannedIds ⊆ ·.bannedIds) ?_ ?_
      · rintro _ rfl
        exact Finset.Subset.refl _
      · intro later event kept _
        exact kept.trans (step_bannedIds later event)
    refine ⟨grown, ?_⟩
    intro fd error record accepted may found
    have assigned := allocateClientId_correct laterTidy (may.2 accepted)
    obtain rfl := Option.some.inj ((findByFd_accept accepted).symm.trans found)
    refine ⟨ne_of_gt assigned.positive, fun banned => assigned.unused ?_⟩
    exact Finset.mem_union_right _ (grown banned)

-- Ids 1 and 3 are banned and id 2 is connected, so the next client is given id 4.
def bansAndRemoval : ServerViewModel :=
  [Event.accept 3 "", .accept 4 "", .ban [1, 3], .remove 3].foldl step {}

theorem acceptClient_least_after_bans :
    ∃ id, (step bansAndRemoval (.accept 5 "")).registry.findByFd 5 = some { fd := 5, id } ∧
      IsLeast {n : Nat | 0 < n ∧
        ∀ used ∈ bansAndRemoval.connectedIds ∪ bansAndRemoval.bannedIds, used.toNat ≠ n}
          id.toNat := by
  have reachable : Runs.Reachable Initial IdsLeft step bansAndRemoval :=
    Runs.Reachable.foldl (.start (show Initial {} from rfl)) (by decide +kernel)
  exact (acceptClient_least reachable).2.1 5 "" (by decide) (by decide +kernel)

example : (step bansAndRemoval (.accept 5 "")).registry.findByFd 5 = some { fd := 5, id := 4 } := by
  decide +kernel

end ModbusChat.Server
