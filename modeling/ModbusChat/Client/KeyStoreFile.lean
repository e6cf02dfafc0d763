import ModbusChat.Client.PeerKeyStore
import ModbusChat.Shared.Runs
import ModbusChat.Wire.Bounds

set_option autoImplicit false

namespace ModbusChat.Client

open BigEndian Effects Wire

def kKeyStoreVersion : UInt8 := 1

-- A method of the key store: what it has written before an exception stays written.
abbrev StoreM := Action PeerKeyStore Empty Failure

namespace PeerKeyStore

def hasIdentity (store : PeerKeyStore) : Bool := !store.identitySecret.isEmpty

def clearRoomKey (store : PeerKeyStore) : PeerKeyStore := { store with roomKey := none }

def entryBytes (entry : (_ : UInt32) × Bytes) : Bytes := writeU32Be entry.1 ++ entry.2

def roomBytes : Option Bytes → Bytes
  | none => [0]
  | some roomKey => 1 :: roomKey

-- The entries are written in the order in which the map hands them out.
def serialize (store : PeerKeyStore) : Except Failure Bytes :=
  if ¬ store.hasIdentity then throw (.runtimeError "cannot serialize keystore without identity")
  else if store.peers.entries.length > kMaxU16Count then throw (.runtimeError "too many peer keys")
  else
    return kKeyStoreVersion ::
      (store.identitySecret ++ (store.identityPublic ++ (roomBytes store.roomKey ++
      (writeU16Be (UInt16.ofNat store.peers.entries.length) ++
        store.peers.entries.flatMap entryBytes))))

-- The flag and the room key, if there is one; returns the offset behind both.
def deserializeRoomKey (blob : Bytes) (offset : Nat) : StoreM Nat := do
  let hasRoom ← .lift (inBounds blob[offset]?)
  let offset := offset + 1
  Action.modify clearRoomKey
  if hasRoom ≠ 0 then
    if blob.length < offset + kRoomKeySize then
      .lift (throw (.runtimeError "truncated room key in keystore"))
    else do
      let roomKey ← .lift (slice blob offset (offset + kRoomKeySize))
      Action.modify fun store => { store with roomKey := some roomKey }
      return offset + kRoomKeySize
  else return offset

def deserializeEntries (blob : Bytes) : (count offset : Nat) → StoreM Unit
  | 0, _ => return
  | count + 1, offset =>
      if blob.length < offset + kUint32Size + kPublicKeySize then
        .lift (throw (.runtimeError "truncated peer entry in keystore"))
      else do
        let id ← .lift (do inBounds (readU32Be (← suffix blob offset)))
        let offset := offset + kUint32Size
        let pk ← .lift (slice blob offset (offset + kPublicKeySize))
        Action.modify fun store => { store with peers := store.peers.insert id pk }
        deserializeEntries blob count (offset + kPublicKeySize)

def deserializePeers (blob : Bytes) (offset : Nat) : StoreM Unit :=
  if blob.length < offset + kUint16Size then
    .lift (throw (.runtimeError "truncated peer count in keystore"))
  else do
    let count ← .lift (do inBounds (readU16Be (← suffix blob offset)))
    Action.modify fun store => { store with peers := ∅ }
    deserializeEntries blob count.toNat (offset + kUint16Size)

-- `deserialize` behind the identity.
def deserializeRest (blob : Bytes) (offset : Nat) : StoreM Unit := do
  let offset ← deserializeRoomKey blob offset
  deserializePeers blob offset

def deserialize (blob : Bytes) : StoreM Unit :=
  if blob.length < 1 + kSecretKeySize + kPublicKeySize + 1 + kUint16Size then
    .lift (throw (.runtimeError "keystore blob too short"))
  else do
    if (← .lift (inBounds blob[0]?)) ≠ kKeyStoreVersion then
      .lift (throw (.runtimeError "unsupported keystore version"))
    else do
      let identitySecret ← .lift (slice blob 1 (1 + kSecretKeySize))
      Action.modify fun store => { store with identitySecret }
      let identityPublic ←
        .lift (slice blob (1 + kSecretKeySize) (1 + kSecretKeySize + kPublicKeySize))
      Action.modify fun store => { store with identityPublic }
      deserializeRest blob (1 + kSecretKeySize + kPublicKeySize)

end PeerKeyStore

-- What `save` writes to its file.
def EncryptedKeyStoreFile.save (cipher : Monocypher) (salt nonce password : Bytes)
    (store : PeerKeyStore) :
    Except Failure Bytes := do
  let plain ← store.serialize
  return encryptKeystore cipher salt nonce password plain

-- `file` is what the file holds, if there is one.
def EncryptedKeyStoreFile.load (cipher : Monocypher) (file : Option Bytes) (password : Bytes) :
    StoreM Bool :=
  match file with
  | none => return false
  | some sealed =>
      if sealed = [] then return false
      else do
        let plain ← .lift (decryptKeystore cipher password sealed)
        PeerKeyStore.deserialize plain
        return true

namespace PeerKeyStore

section Reading

theorem deserializeEntries_written {entries : List ((_ : UInt32) × Bytes)}
    (sizes : ∀ entry ∈ entries, entry.2.length = kPublicKeySize) (before rest : Bytes)
    (store : PeerKeyStore) :
    (deserializeEntries (before ++ (entries.flatMap entryBytes ++ rest)) entries.length
      before.length).run store =
        ⟨{ store with
            peers := entries.foldl (fun peers entry => peers.insert entry.1 entry.2) store.peers },
          [], .ok ()⟩ := by
  -- The induction moves one entry from the front of what is left to the end of what was read.
  induction entries generalizing before store with
  | nil => rfl
  | cons entry entries ih =>
    obtain ⟨size, others⟩ := List.forall_mem_cons.mp sizes
    obtain ⟨id, pk⟩ := entry
    set rest' := entries.flatMap entryBytes ++ rest with later
    have blob : before ++ ((⟨id, pk⟩ :: entries).flatMap entryBytes ++ rest) =
        before ++ (writeU32Be id ++ (pk ++ rest')) := by
      simp [entryBytes, later]
    have enough : ¬ (before ++ (writeU32Be id ++ (pk ++ rest'))).length <
        before.length + kUint32Size + kPublicKeySize := by
      simp only [List.length_append, writeU32Be_length, size, kUint32Size]
      omega
    have further : before.length + kUint32Size = (before ++ writeU32Be id).length := by
      simp [kUint32Size]
    have key : slice (before ++ (writeU32Be id ++ (pk ++ rest'))) (before.length + kUint32Size)
        (before.length + kUint32Size + kPublicKeySize) = .ok pk := by
      rw [further, ← List.append_assoc before, ← size]
      exact slice_middle _ pk rest'
    have next := ih others (before ++ (writeU32Be id ++ pk))
      { store with peers := store.peers.insert id pk }
    have offset : (before ++ (writeU32Be id ++ pk)).length =
        before.length + kUint32Size + kPublicKeySize := by
      simp only [List.length_append, writeU32Be_length, size, kUint32Size]
      omega
    rw [offset, List.append_assoc, List.append_assoc] at next
    rw [blob, List.length_cons, deserializeEntries, if_neg enough]
    simp only [Action.run_bind, Action.run_lift, suffix_append, ok_bind, readU32Be_write,
      inBounds_some, Outcome.andThen_ok, Outcome.before_nil, key, Action.run_modify, next,
      List.foldl_cons]

theorem deserializePeers_written {entries : List ((_ : UInt32) × Bytes)}
    (sizes : ∀ entry ∈ entries, entry.2.length = kPublicKeySize)
    (few : entries.length ≤ kMaxU16Count) (before : Bytes) (store : PeerKeyStore) :
    (deserializePeers (before ++ (writeU16Be (UInt16.ofNat entries.length) ++
      entries.flatMap entryBytes)) before.length).run store =
        ⟨{ store with peers := entries.foldl (fun peers entry => peers.insert entry.1 entry.2) ∅ },
          [], .ok ()⟩ := by
  set count := writeU16Be (UInt16.ofNat entries.length) with written
  have enough : ¬ (before ++ (count ++ entries.flatMap entryBytes)).length <
      before.length + kUint16Size := by
    simp only [written, List.length_append, writeU16Be_length, kUint16Size]
    omega
  have read :
      readU16Be (count ++ entries.flatMap entryBytes) = some (UInt16.ofNat entries.length) := by
    rw [written, readU16Be_write]
  -- the peers of before are gone once the count is read
  have peers := deserializeEntries_written sizes (before ++ count) [] { store with peers := ∅ }
  have offset : (before ++ count).length = before.length + kUint16Size := by
    simp [written, kUint16Size]
  rw [List.append_nil, List.append_assoc, offset] at peers
  rw [deserializePeers, if_neg enough]
  simp only [Action.run_bind, Action.run_lift, suffix_append, ok_bind, read, inBounds_some,
    Outcome.andThen_ok, Outcome.before_nil, Action.run_modify, ofNat_toNat_of_le few, peers]

theorem deserializeRoomKey_written {roomKey : Option Bytes}
    (roomSize : ∀ key ∈ roomKey, key.length = kRoomKeySize) (before rest : Bytes)
    (store : PeerKeyStore) :
    (deserializeRoomKey (before ++ (roomBytes roomKey ++ rest)) before.length).run store =
      ⟨{ store with roomKey }, [], .ok (before ++ roomBytes roomKey).length⟩ := by
  cases roomKey with
  | none =>
    -- flag 0: the room key of before is cleared all the same
    simp [roomBytes, deserializeRoomKey, clearRoomKey]
  | some key =>
    have size := roomSize key rfl
    have flag : (before ++ (roomBytes (some key) ++ rest))[before.length]? = some 1 := by
      simp [roomBytes]
    have offset : (before ++ roomBytes (some key)).length = before.length + 1 + kRoomKeySize := by
      simp only [roomBytes, List.length_append, List.length_cons, size]
      omega
    have enough : ¬ (before ++ (roomBytes (some key) ++ rest)).length <
        before.length + 1 + kRoomKeySize := by
      rw [← offset, ← List.append_assoc, List.length_append]
      omega
    have read : slice (before ++ (roomBytes (some key) ++ rest)) (before.length + 1)
        (before.length + 1 + kRoomKeySize) = .ok key := by
      have middle := slice_middle (before ++ [1]) key rest
      rw [List.length_append, List.length_singleton, size, List.append_assoc] at middle
      exact middle
    simp only [deserializeRoomKey, Action.run_bind, Action.run_lift, flag, inBounds_some,
      Outcome.andThen_ok, Outcome.before_nil, Action.run_modify]
    rw [if_pos (by decide), if_neg enough, offset]
    simp only [Action.run_bind, Action.run_lift, read, Outcome.andThen_ok, Outcome.before_nil,
      Action.run_modify, Action.run_pure, clearRoomKey]

theorem deserializeRest_written {roomKey : Option Bytes} {entries : List ((_ : UInt32) × Bytes)}
    (roomSize : ∀ key ∈ roomKey, key.length = kRoomKeySize)
    (sizes : ∀ entry ∈ entries, entry.2.length = kPublicKeySize)
    (few : entries.length ≤ kMaxU16Count) (before : Bytes) (store : PeerKeyStore) :
    (deserializeRest (before ++ (roomBytes roomKey ++ (writeU16Be (UInt16.ofNat entries.length) ++
      entries.flatMap entryBytes))) before.length).run store =
        ⟨{ store with
            roomKey
            peers := entries.foldl (fun peers entry => peers.insert entry.1 entry.2) ∅ }, [],
              .ok ()⟩ := by
  have peers :=
    deserializePeers_written sizes few (before ++ roomBytes roomKey) { store with roomKey }
  rw [List.append_assoc] at peers
  rw [deserializeRest, Action.run_bind, deserializeRoomKey_written roomSize, Outcome.andThen_ok,
    Outcome.before_nil, peers]

-- The blobs that `deserialize` turns away before it writes anything.
def Unrecognised (blob : Bytes) : Prop :=
  blob.length < 1 + kSecretKeySize + kPublicKeySize + 1 + kUint16Size ∨
    blob[0]? ≠ some kKeyStoreVersion

theorem deserialize_unrecognised {blob : Bytes} (unrecognised : Unrecognised blob) :
    ∃ what, ∀ store, (deserialize blob).run store = ⟨store, [], .error (.runtimeError what)⟩ := by
  by_cases short : blob.length < 1 + kSecretKeySize + kPublicKeySize + 1 + kUint16Size
  · refine ⟨"keystore blob too short", fun store => ?_⟩
    rw [deserialize, if_pos short]
    rfl
  · refine ⟨"unsupported keystore version", fun store => ?_⟩
    -- long enough for everything up to the count, so the version can be read
    have other := unrecognised.resolve_left short
    match blob with
    | [] => simp at short
    | version :: rest =>
      have differs : version ≠ kKeyStoreVersion := fun same => other (congrArg some same)
      rw [deserialize, if_neg short]
      simp only [Action.run_bind, Action.run_lift, List.getElem?_cons_zero, inBounds_some,
        Outcome.andThen_ok, Outcome.before_nil, if_pos differs]
      rfl

theorem recognised_split {blob : Bytes} (recognised : ¬ Unrecognised blob) :
    ∃ secret publicKey rest, secret.length = kSecretKeySize ∧ publicKey.length = kPublicKeySize ∧
      1 + kUint16Size ≤ rest.length ∧ blob = kKeyStoreVersion ::
        (secret ++ (publicKey ++ rest)) := by
  obtain ⟨long, version⟩ := not_or.mp recognised
  match blob with
  | [] => simp at version
  | byte :: rest =>
    obtain rfl : byte = kKeyStoreVersion := Option.some.inj (not_not.mp version)
    rw [List.length_cons] at long
    refine ⟨rest.take kSecretKeySize, (rest.drop kSecretKeySize).take kPublicKeySize,
      (rest.drop kSecretKeySize).drop kPublicKeySize, ?_, ?_, ?_, ?_⟩
    · rw [List.length_take]
      omega
    · rw [List.length_take, List.length_drop]
      omega
    · rw [List.length_drop, List.length_drop]
      omega
    · rw [List.take_append_drop, List.take_append_drop]

theorem deserialize_recognised {secret publicKey rest : Bytes}
    (secretSize : secret.length = kSecretKeySize) (publicSize : publicKey.length = kPublicKeySize)
    (long : 1 + kUint16Size ≤ rest.length) (store : PeerKeyStore) :
    (deserialize (kKeyStoreVersion :: (secret ++ (publicKey ++ rest)))).run store =
      (deserializeRest ((kKeyStoreVersion :: (secret ++ publicKey)) ++ rest)
        (kKeyStoreVersion :: (secret ++ publicKey)).length).run
          { store with identitySecret := secret, identityPublic := publicKey } := by
  set blob := kKeyStoreVersion :: (secret ++ (publicKey ++ rest)) with bytes
  have enough : ¬ blob.length < 1 + kSecretKeySize + kPublicKeySize + 1 + kUint16Size := by
    simp only [bytes, List.length_cons, List.length_append, secretSize, publicSize]
    omega
  have version : blob[0]? = some kKeyStoreVersion := rfl
  -- both slices are cut out where the keys were put
  have secretRead : slice blob 1 (1 + kSecretKeySize) = .ok secret := by
    have middle := slice_middle [kKeyStoreVersion] secret (publicKey ++ rest)
    rwa [secretSize] at middle
  have publicRead : slice blob (1 + kSecretKeySize) (1 + kSecretKeySize + kPublicKeySize) =
      .ok publicKey := by
    have middle := slice_middle (kKeyStoreVersion :: secret) publicKey rest
    rwa [List.length_cons, secretSize, publicSize, Nat.add_comm kSecretKeySize] at middle
  have offset : (kKeyStoreVersion :: (secret ++ publicKey)).length =
      1 + kSecretKeySize + kPublicKeySize := by
    rw [List.length_cons, List.length_append, secretSize, publicSize]
    omega
  have regroup : (kKeyStoreVersion :: (secret ++ publicKey)) ++ rest = blob := by
    rw [bytes, List.cons_append, List.append_assoc]
  rw [deserialize, if_neg enough, regroup, offset]
  simp only [Action.run_bind, Action.run_lift, version, inBounds_some, Outcome.andThen_ok,
    Outcome.before_nil, ne_eq, not_true_eq_false, if_false, secretRead, publicRead,
    Action.run_modify]

end Reading

-- A method that returns a changed copy here; the source writes to the store itself.
def update (method : PeerKeyStore → Except Failure PeerKeyStore) : StoreM Unit := do
  let changed ← .lift (method (← Action.get))
  Action.modify fun _ => changed

inductive Operation where
  | setIdentity (secretKey publicKey : Bytes)
  | setRoomKey (roomKey : Bytes)
  | clearRoomKey
  | setPeerPublic (peerId : UInt32) (publicKey : Bytes)
  | erasePeer (peerId : UInt32)
  | erasePeers (peerIds : List UInt32)
  | deserialize (blob : Bytes)

def Operation.action : Operation → StoreM Unit
  | .setIdentity secretKey publicKey => update (·.setIdentity secretKey publicKey)
  | .setRoomKey roomKey => update (·.setRoomKey roomKey)
  | .clearRoomKey => Action.modify PeerKeyStore.clearRoomKey
  | .setPeerPublic peerId publicKey => update (·.setPeerPublic peerId publicKey)
  | .erasePeer peerId => Action.modify (·.erasePeer peerId)
  | .erasePeers peerIds => Action.modify (·.erasePeers peerIds)
  | .deserialize blob => PeerKeyStore.deserialize blob

def step (store : PeerKeyStore) (operation : Operation) : PeerKeyStore :=
  (operation.action.run store).state

theorem update_ok {method : PeerKeyStore → Except Failure PeerKeyStore}
    {store changed : PeerKeyStore}
    (called : method store = .ok changed) : ((update method).run store).state = changed := by
  simp [update, called]

theorem update_cases (method : PeerKeyStore → Except Failure PeerKeyStore) (store : PeerKeyStore) :
    ((update method).run store).state = store ∨
      method store = .ok ((update method).run store).state := by
  cases called : method store with
  | error failure => exact .inl (by simp [update, called])
  | ok changed => exact .inr (by rw [update_ok called])

def Operation.sparesIdentity : Operation → Bool
  | .setIdentity .. | .deserialize _ => false
  | .setRoomKey _ | .clearRoomKey | .setPeerPublic .. | .erasePeer _ | .erasePeers _ => true

def SameIdentity (store changed : PeerKeyStore) : Prop :=
  changed.identitySecret = store.identitySecret ∧ changed.identityPublic = store.identityPublic

theorem update_identity {method : PeerKeyStore → Except Failure PeerKeyStore}
    (kept : ∀ store changed, method store = .ok changed → SameIdentity store changed)
    (store : PeerKeyStore) : SameIdentity store ((update method).run store).state := by
  rcases update_cases method store with same | called
  · rw [same]
    exact ⟨rfl, rfl⟩
  · exact kept store _ called

theorem step_identity {operation : Operation} (spares : operation.sparesIdentity = true)
    (store : PeerKeyStore) : SameIdentity store (step store operation) := by
  cases operation with
  | setIdentity | deserialize => cases spares
  | setRoomKey roomKey =>
    refine update_identity (fun store changed called => ?_) store
    unfold PeerKeyStore.setRoomKey at called
    split_ifs at called
    exact Except.ok.inj called ▸ ⟨rfl, rfl⟩
  | setPeerPublic peerId publicKey =>
    refine update_identity (fun store changed called => ?_) store
    unfold PeerKeyStore.setPeerPublic at called
    split_ifs at called
    exact Except.ok.inj called ▸ ⟨rfl, rfl⟩
  | clearRoomKey | erasePeer => exact ⟨rfl, rfl⟩
  | erasePeers peerIds =>
    exact ⟨(store.erasePeers_keys peerIds).1, (store.erasePeers_keys peerIds).2.1⟩

abbrev Reachable : PeerKeyStore → Prop := Runs.Reachable (· = {}) (fun _ _ => True) step

-- The sizes that the setters check, which nothing that is read from a file gets around.
structure KeySizes (store : PeerKeyStore) : Prop where
  identity : store.identitySecret = [] ∧ store.identityPublic = [] ∨
    store.identitySecret.length = kSecretKeySize ∧ store.identityPublic.length = kPublicKeySize
  room : ∀ roomKey ∈ store.roomKey, roomKey.length = kRoomKeySize
  peers : ∀ peerId publicKey, store.peerPublic peerId = some publicKey →
    publicKey.length = kPublicKeySize

section KeySizes

variable {store : PeerKeyStore}

theorem KeySizes.identitySizes (sized : KeySizes store) (identity : store.hasIdentity) :
    store.identitySecret.length = kSecretKeySize ∧
      store.identityPublic.length = kPublicKeySize := by
  rcases sized.identity with ⟨none, -⟩ | sizes
  · simp [hasIdentity, none] at identity
  · exact sizes

theorem keySizes_empty : KeySizes {} where
  identity := .inl ⟨rfl, rfl⟩
  room := nofun
  peers peerId publicKey known := by simp [peerPublic] at known

theorem KeySizes.setIdentity (sized : KeySizes store) {secretKey publicKey : Bytes}
    (secretSize : secretKey.length = kSecretKeySize)
    (publicSize : publicKey.length = kPublicKeySize) :
    KeySizes { store with identitySecret := secretKey, identityPublic := publicKey } :=
  { identity := .inr ⟨secretSize, publicSize⟩, room := sized.room, peers := sized.peers }

theorem KeySizes.setRoomKey (sized : KeySizes store) {roomKey : Bytes}
    (size : roomKey.length = kRoomKeySize) : KeySizes { store with roomKey := some roomKey } :=
  { identity := sized.identity
    room := by
      rintro _ ⟨⟩
      exact size
    peers := sized.peers }

theorem KeySizes.clearRoomKey (sized : KeySizes store) : KeySizes store.clearRoomKey :=
  { identity := sized.identity, room := nofun, peers := sized.peers }

theorem KeySizes.setPeerPublic (sized : KeySizes store) (peerId : UInt32) {publicKey : Bytes}
    (size : publicKey.length = kPublicKeySize) :
    KeySizes { store with peers := store.peers.insert peerId publicKey } :=
  { identity := sized.identity
    room := sized.room
    peers := by
      intro other key known
      rw [peerPublic_insert] at known
      split_ifs at known
      · exact Option.some.inj known ▸ size
      · exact sized.peers other key known }

theorem KeySizes.clearPeers (sized : KeySizes store) : KeySizes { store with peers := ∅ } :=
  { identity := sized.identity
    room := sized.room
    peers := fun peerId publicKey known => by simp [peerPublic] at known }

theorem KeySizes.erasePeer (sized : KeySizes store) (peerId : UInt32) :
    KeySizes (store.erasePeer peerId) :=
  { identity := sized.identity
    room := sized.room
    peers := by
      intro other key known
      rw [peerPublic_erasePeer] at known
      split_ifs at known
      exact sized.peers other key known }

theorem KeySizes.erasePeers (sized : KeySizes store) (peerIds : List UInt32) :
    KeySizes (store.erasePeers peerIds) := by
  induction peerIds generalizing store with
  | nil => exact sized
  | cons peerId peerIds ih => exact ih (sized.erasePeer peerId)

theorem slice_length {buffer bytes : Bytes} {first size : Nat}
    (read : slice buffer first (first + size) = .ok bytes) : bytes.length = size := by
  unfold slice at read
  split_ifs at read with inside
  rw [← Except.ok.inj read, List.length_drop, List.length_take]
  omega

theorem maintains_update {method : PeerKeyStore → Except Failure PeerKeyStore}
    (kept : ∀ store changed, KeySizes store → method store = .ok changed → KeySizes changed) :
    (update method).Maintains KeySizes := by
  intro store sized
  rcases update_cases method store with same | called
  · rwa [same]
  · exact kept store _ sized called

structure KeptByRest (inv : PeerKeyStore → Prop) : Prop where
  clearRoomKey : ∀ store, inv store → inv store.clearRoomKey
  setRoomKey : ∀ store roomKey, roomKey.length = kRoomKeySize → inv store →
    inv { store with roomKey := some roomKey }
  clearPeers : ∀ store, inv store → inv { store with peers := ∅ }
  setPeerPublic : ∀ store peerId publicKey, publicKey.length = kPublicKeySize → inv store →
    inv { store with peers := store.peers.insert peerId publicKey }

theorem keySizes_keptByRest : KeptByRest KeySizes where
  clearRoomKey _ sized := sized.clearRoomKey
  setRoomKey _ _ size sized := sized.setRoomKey size
  clearPeers _ sized := sized.clearPeers
  setPeerPublic _ peerId _ size sized := sized.setPeerPublic peerId size

theorem KeptByRest.deserializeEntries {inv : PeerKeyStore → Prop} (kept : KeptByRest inv)
    (blob : Bytes) (count offset : Nat) : (deserializeEntries blob count offset).Maintains inv := by
  induction count generalizing offset with
  | zero => exact (Action.keeps_pure _).maintains
  | succ count ih =>
    rw [PeerKeyStore.deserializeEntries]
    split_ifs
    · exact (Action.keeps_lift _).maintains
    · refine (Action.keeps_lift _).maintains.bind fun _ id _ => ?_
      refine (Action.keeps_lift _).maintains.bind fun _ pk read => ?_
      refine (Action.maintains_modify fun store holds => ?_).bind fun _ _ _ => ih _
      exact kept.setPeerPublic store id pk (slice_length read) holds

theorem KeptByRest.deserializeRest {inv : PeerKeyStore → Prop} (kept : KeptByRest inv)
    (blob : Bytes) (offset : Nat) : (deserializeRest blob offset).Maintains inv := by
  refine Action.Maintains.bind ?_ fun _ offset _ => ?_
  · refine (Action.keeps_lift _).maintains.bind fun _ hasRoom _ => ?_
    refine (Action.maintains_modify kept.clearRoomKey).bind fun _ _ _ => ?_
    split_ifs
    · exact (Action.keeps_lift _).maintains
    · refine (Action.keeps_lift _).maintains.bind fun _ roomKey read => ?_
      refine (Action.maintains_modify fun store holds => ?_).bind fun _ _ _ =>
        (Action.keeps_pure _).maintains
      exact kept.setRoomKey store roomKey (slice_length read) holds
    · exact (Action.keeps_pure _).maintains
  · rw [deserializePeers]
    split_ifs
    · exact (Action.keeps_lift _).maintains
    · refine (Action.keeps_lift _).maintains.bind fun _ count _ => ?_
      refine (Action.maintains_modify kept.clearPeers).bind fun _ _ _ => ?_
      exact kept.deserializeEntries blob _ _

theorem maintains_deserialize (blob : Bytes) : (deserialize blob).Maintains KeySizes := by
  intro store sized
  by_cases unrecognised : Unrecognised blob
  · obtain ⟨what, thrown⟩ := deserialize_unrecognised unrecognised
    rw [thrown store]
    exact sized
  · obtain ⟨secret, publicKey, rest, secretSize, publicSize, long, rfl⟩ :=
      recognised_split unrecognised
    rw [deserialize_recognised secretSize publicSize long]
    exact keySizes_keptByRest.deserializeRest _ _ _ (sized.setIdentity secretSize publicSize)

theorem maintains_operation (operation : Operation) : operation.action.Maintains KeySizes := by
  cases operation with
  | setIdentity secretKey publicKey =>
    refine maintains_update fun store changed sized called => ?_
    unfold PeerKeyStore.setIdentity at called
    split_ifs at called with sizes
    obtain ⟨secretSize, publicSize⟩ := not_or.mp sizes
    exact Except.ok.inj called ▸ sized.setIdentity (not_not.mp secretSize) (not_not.mp publicSize)
  | setRoomKey roomKey =>
    refine maintains_update fun store changed sized called => ?_
    unfold PeerKeyStore.setRoomKey at called
    split_ifs at called with size
    exact Except.ok.inj called ▸ sized.setRoomKey (not_not.mp size)
  | clearRoomKey => exact Action.maintains_modify fun store sized => sized.clearRoomKey
  | setPeerPublic peerId publicKey =>
    refine maintains_update fun store changed sized called => ?_
    unfold PeerKeyStore.setPeerPublic at called
    split_ifs at called with size
    exact Except.ok.inj called ▸ sized.setPeerPublic peerId (not_not.mp size)
  | erasePeer peerId => exact Action.maintains_modify fun store sized => sized.erasePeer peerId
  | erasePeers peerIds => exact Action.maintains_modify fun store sized => sized.erasePeers peerIds
  | deserialize blob => exact maintains_deserialize blob

theorem Reachable.keySizes (reachable : Reachable store) : KeySizes store := by
  refine Runs.Reachable.invariant KeySizes ?_ ?_ reachable
  · rintro _ rfl
    exact keySizes_empty
  · intro store operation sized _
    exact maintains_operation operation store sized

end KeySizes

section Bounds

variable {α β : Type}

def ReadsInside (action : StoreM α) : Prop := ∀ store, Bounded (action.run store).result

theorem readsInside_pure (value : α) : ReadsInside (pure value) := fun _ => bounded_ok value

theorem readsInside_lift {value : Except Failure α} (bounded : Bounded value) :
    ReadsInside (.lift value) := fun _ => bounded

theorem readsInside_modify (change : PeerKeyStore → PeerKeyStore) :
    ReadsInside (Action.modify change) := fun _ => bounded_ok ()

theorem ReadsInside.bind {action : StoreM α} {next : α → StoreM β} (first : ReadsInside action)
    (rest : ∀ value, ReadsInside (next value)) : ReadsInside (action >>= next) := by
  intro store
  have inside := first store
  rw [Action.run_bind]
  generalize action.run store = outcome at inside
  obtain ⟨after, output, failure | value⟩ := outcome
  · rintro ⟨⟩
    exact inside rfl
  · exact rest value after

theorem bounded_readAt {width : Nat} {read : Bytes → Option α} {blob : Bytes} {offset : Nat}
    (reads : ∀ data, width ≤ data.length → (read data).isSome)
    (enough : ¬ blob.length < offset + width) :
    Bounded (do inBounds (read (← suffix blob offset))) := by
  refine (suffix_bounded (by omega)).bind fun data split => bounded_inBounds (reads data ?_)
  rw [(suffix_ok split).2]
  omega

theorem deserializeEntries_inside (blob : Bytes) (count offset : Nat) :
    ReadsInside (deserializeEntries blob count offset) := by
  induction count generalizing offset with
  | zero => exact readsInside_pure ()
  | succ count ih =>
    rw [deserializeEntries]
    -- each entry is checked as a whole before either part of it is read
    split_ifs with truncated
    · exact readsInside_lift (bounded_throw _)
    · refine (readsInside_lift (bounded_readAt (fun _ => readU32Be_isSome) (by omega))).bind
        fun id => ?_
      refine (readsInside_lift (slice_bounded (by omega) (by omega))).bind fun pk => ?_
      exact (readsInside_modify _).bind fun _ => ih _

theorem deserializePeers_inside (blob : Bytes) (offset : Nat) :
    ReadsInside (deserializePeers blob offset) := by
  rw [deserializePeers]
  split_ifs with truncated
  · exact readsInside_lift (bounded_throw _)
  · refine (readsInside_lift (bounded_readAt (fun _ => readU16Be_isSome) truncated)).bind
      fun count => ?_
    exact (readsInside_modify _).bind fun _ => deserializeEntries_inside blob _ _

theorem deserializeRoomKey_inside {blob : Bytes} {offset : Nat} (flagged : offset < blob.length) :
    ReadsInside (deserializeRoomKey blob offset) := by
  refine (readsInside_lift (bounded_inBounds (getElem?_isSome flagged))).bind fun hasRoom => ?_
  refine (readsInside_modify _).bind fun _ => ?_
  split_ifs with present truncated
  · exact readsInside_lift (bounded_throw _)
  · refine (readsInside_lift (slice_bounded (by omega) (by omega))).bind fun roomKey => ?_
    exact (readsInside_modify _).bind fun _ => readsInside_pure _
  · exact readsInside_pure _

theorem deserialize_inside (blob : Bytes) : ReadsInside (deserialize blob) := by
  rw [deserialize]
  split_ifs with short
  · exact readsInside_lift (bounded_throw _)
  · refine (readsInside_lift (bounded_inBounds (getElem?_isSome (by omega)))).bind fun version => ?_
    split_ifs
    · exact readsInside_lift (bounded_throw _)
    · refine (readsInside_lift (slice_bounded (by omega) (by omega))).bind fun secret => ?_
      refine (readsInside_modify _).bind fun _ => ?_
      refine (readsInside_lift (slice_bounded (by omega) (by omega))).bind fun publicKey => ?_
      refine (readsInside_modify _).bind fun _ => ?_
      exact (deserializeRoomKey_inside (by omega)).bind fun offset =>
        deserializePeers_inside blob offset

end Bounds

-- No size check stands in the way of the keys of the store: what fails is decryption, or nothing.
structure ChecksPass (cipher : Monocypher) (store : PeerKeyStore) : Prop where
  direct : ∀ peerId peerPk, store.peerPublic peerId = some peerPk → ∀ nonce text,
    encryptForPeer cipher nonce store.identitySecret peerPk text =
        .ok (aeadEncrypt cipher (cipher.x25519 store.identitySecret peerPk) nonce text) ∧
      decryptFromPeer cipher store.identitySecret peerPk text =
        aeadDecrypt cipher (cipher.x25519 store.identitySecret peerPk) text
  offer : ∀ peerId peerPk, store.peerPublic peerId = some peerPk → ∀ nonce sealed,
    (∀ roomKey ∈ store.roomKey, sealRoomKey cipher nonce store.identitySecret peerPk roomKey =
        .ok (aeadEncrypt cipher (cipher.x25519 store.identitySecret peerPk) nonce roomKey)) ∧
      openRoomKey cipher store.identitySecret peerPk sealed = do
        let room ← aeadDecrypt cipher (cipher.x25519 store.identitySecret peerPk) sealed
        if room.length ≠ kRoomKeySize then throw (.runtimeError "invalid room key payload")
        else return room
  broadcast : ∀ roomKey ∈ store.roomKey, ∀ nonce text,
    encryptWithRoomKey cipher nonce roomKey text = .ok (aeadEncrypt cipher roomKey nonce text) ∧
      decryptWithRoomKey cipher roomKey text = aeadDecrypt cipher roomKey text

theorem KeySizes.checksPass {store : PeerKeyStore} (sized : KeySizes store)
    (identity : store.hasIdentity) (cipher : Monocypher) : ChecksPass cipher store := by
  have secretSize := (sized.identitySizes identity).1
  have shared {peerId : UInt32} {peerPk : Bytes} (known : store.peerPublic peerId = some peerPk) :=
    @sharedSecret_ok cipher _ _ secretSize (sized.peers peerId peerPk known)
  constructor
  · intro peerId peerPk known nonce text
    simp only [encryptForPeer, decryptFromPeer, shared known, ok_bind, except_pure, and_self]
  · intro peerId peerPk known nonce sealed
    refine ⟨fun roomKey held => ?_, ?_⟩
    · simp only [sealRoomKey, requireSize_ok (sized.room roomKey held), shared known, ok_bind,
        except_pure]
    · simp only [openRoomKey, shared known, ok_bind]
  · intro roomKey held nonce text
    simp only [encryptWithRoomKey, decryptWithRoomKey, requireSize_ok (sized.room roomKey held),
      ok_bind, except_pure, and_self]

theorem reachable_keySizes (cipher : Monocypher) {store : PeerKeyStore}
    (reachable : Reachable store) :
    KeySizes store ∧
      (∀ blob, ((deserialize blob).run store).result ≠ .error .outOfBounds) ∧
      (store.hasIdentity → ChecksPass cipher store) := by
  have sized := reachable.keySizes
  exact ⟨sized, fun blob => deserialize_inside blob store,
    fun identity => sized.checksPass identity cipher⟩

def cutShort : Bytes :=
  kKeyStoreVersion :: (List.replicate 32 2 ++ (List.replicate 32 3 ++ (1 :: (List.replicate 32 4 ++
    (writeU16Be 2 ++ (writeU32Be 5 ++ List.replicate 32 6))))))

theorem reachable_keySizes_cutShort : KeySizes (step {} (.deserialize cutShort)) :=
  (reachable_keySizes transparent (.next (.start rfl) trivial)).1

section RoundTrip

variable {store : PeerKeyStore}

theorem mem_entries_size (sized : KeySizes store) {entry : (_ : UInt32) × Bytes}
    (member : entry ∈ store.peers.entries) : entry.2.length = kPublicKeySize :=
  sized.peers entry.1 entry.2 (AList.mem_lookup_iff.mpr member)

theorem deserialize_serialize (sized : KeySizes store) (identity : store.hasIdentity)
    (few : store.peers.entries.length ≤ kMaxU16Count) :
    ∃ plain, store.serialize = .ok plain ∧ ∀ target, (deserialize plain).run target =
      ⟨{ store with
          peers := store.peers.entries.foldl (fun peers entry => peers.insert entry.1 entry.2) ∅ },
        [], .ok ()⟩ := by
  obtain ⟨secretSize, publicSize⟩ := sized.identitySizes identity
  set rest := roomBytes store.roomKey ++ (writeU16Be (UInt16.ofNat store.peers.entries.length) ++
    store.peers.entries.flatMap entryBytes) with written
  have long : 1 + kUint16Size ≤ rest.length := by
    have flag : 1 ≤ (roomBytes store.roomKey).length := by cases store.roomKey <;> simp [roomBytes]
    simp only [written, List.length_append, writeU16Be_length, kUint16Size]
    omega
  refine ⟨kKeyStoreVersion :: (store.identitySecret ++ (store.identityPublic ++ rest)), ?_,
    fun target => ?_⟩
  · rw [serialize, if_neg (not_not.mpr identity), if_neg (by omega), except_pure]
  · rw [deserialize_recognised secretSize publicSize long, written,
      deserializeRest_written sized.room (fun entry => mem_entries_size sized) few]

theorem decryptKeystore_encryptKeystore {cipher : Monocypher}
    (inverts : ∀ key nonce plain, cipher.aeadUnlock key nonce (cipher.aeadLock key nonce plain).1
      (cipher.aeadLock key nonce plain).2 = some plain)
    {salt nonce : Bytes} (saltSize : salt.length = kSaltSize)
    (nonceSize : nonce.length = kNonceSize) (password plain : Bytes) :
    decryptKeystore cipher password (encryptKeystore cipher salt nonce password plain) =
      .ok plain := by
  have long : ¬ (encryptKeystore cipher salt nonce password plain).length <
      kSaltSize + kNonceSize + kMacSize := by
    rw [encryptKeystore, List.length_append, aeadEncrypt_length, saltSize, nonceSize]
    omega
  rw [decryptKeystore, if_neg long, encryptKeystore, ← saltSize, List.take_left, List.drop_left,
    aeadDecrypt_aeadEncrypt cipher nonceSize, inverts]

end RoundTrip

end PeerKeyStore

open PeerKeyStore in
theorem keystore_roundTrip {cipher : Monocypher}
    (inverts : ∀ key nonce plain, cipher.aeadUnlock key nonce (cipher.aeadLock key nonce plain).1
      (cipher.aeadLock key nonce plain).2 = some plain)
    {store : PeerKeyStore} (reachable : Reachable store) (identity : store.hasIdentity)
    (few : store.peers.entries.length ≤ kMaxU16Count)
    (order : Table UInt32 Bytes) (iterated : order.entries.Perm store.peers.entries)
    {salt nonce : Bytes} (saltSize : salt.length = kSaltSize)
    (nonceSize : nonce.length = kNonceSize) (password : Bytes) (target : PeerKeyStore) :
    ∃ file after,
      EncryptedKeyStoreFile.save cipher salt nonce password
        { store with peers := order } = .ok file ∧
      (EncryptedKeyStoreFile.load cipher (some file) password).run target = ⟨after, [], .ok true⟩ ∧
      after.identitySecret = store.identitySecret ∧ after.identityPublic = store.identityPublic ∧
      after.roomKey = store.roomKey ∧ ∀ peerId,
        after.peerPublic peerId = store.peerPublic peerId := by
  have lookup (peerId : UInt32) : order.lookup peerId = store.peers.lookup peerId :=
    AList.perm_lookup iterated
  have sized := reachable.keySizes
  -- what is written is the store with its peers in the order of the iteration
  have ordered : KeySizes { store with peers := order } :=
    { identity := sized.identity
      room := sized.room
      peers :=
        fun peerId publicKey known =>
          sized.peers peerId publicKey ((lookup peerId).symm.trans known) }
  obtain ⟨plain, serialized, readBack⟩ := deserialize_serialize ordered identity
    (iterated.length_eq.trans_le few)
  have opened := decryptKeystore_encryptKeystore inverts saltSize nonceSize password plain
  -- `load` takes an empty file for none
  have present : encryptKeystore cipher salt nonce password plain ≠ [] := by
    refine List.append_ne_nil_of_left_ne_nil ?_ _
    rintro rfl
    exact absurd saltSize (by decide)
  refine ⟨encryptKeystore cipher salt nonce password plain,
    { store with peers := order.entries.foldl (fun peers entry => peers.insert entry.1 entry.2) ∅ },
    ?_, ?_, rfl, rfl, rfl, fun peerId => ?_⟩
  · rw [EncryptedKeyStoreFile.save, serialized, ok_bind, except_pure]
  · simp only [EncryptedKeyStoreFile.load, if_neg present, Action.run_bind, Action.run_lift, opened,
      Outcome.andThen_ok, Outcome.before_nil, readBack target, Action.run_pure]
  · -- inserted one by one, the entries make up the map they came from
    refine (Table.lookup_foldl_insert order.nodupKeys ∅ peerId).trans ?_
    rw [Table.lookup_none, Option.or_none]
    exact lookup peerId

def PeerKeyStore.filled : PeerKeyStore :=
  [Operation.setIdentity (List.replicate 32 7) (List.replicate 32 8),
    .setRoomKey (List.replicate 32 9), .setPeerPublic 5 (List.replicate 32 6)].foldl step {}

open PeerKeyStore in
theorem keystore_roundTrip_filled :
    ∃ file after,
      EncryptedKeyStoreFile.save transparent (List.replicate kSaltSize 1)
        (List.replicate kNonceSize 2)
          (ascii "secret") filled = .ok file ∧
        (EncryptedKeyStoreFile.load transparent (some file) (ascii "secret")).run
          { peers := (∅ : Table UInt32 Bytes).insert 4 (List.replicate 32 3) } =
            ⟨after, [], .ok true⟩ ∧
        after.roomKey = some (List.replicate 32 9) ∧
        after.peerPublic 5 = some (List.replicate 32 6) ∧ after.peerPublic 4 = none := by
  have reachable : Reachable filled := .foldl (.start rfl) (by decide)
  obtain ⟨file, after, saved, loaded, -, -, room, peers⟩ :=
    keystore_roundTrip transparent_ideal.unlock_lock reachable (by decide) (by decide) filled.peers
      (List.Perm.refl _) List.length_replicate List.length_replicate (ascii "secret")
      { peers := (∅ : Table UInt32 Bytes).insert 4 (List.replicate 32 3) }
  exact ⟨file, after, saved, loaded, room.trans (by decide), (peers 5).trans (by decide),
    (peers 4).trans (by decide)⟩

end ModbusChat.Client
