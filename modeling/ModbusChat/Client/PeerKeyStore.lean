import ModbusChat.Client.Cipher
import ModbusChat.Shared.OrderedSet
import ModbusChat.Shared.Table

set_option autoImplicit false

namespace ModbusChat.Client

open BigEndian Effects Wire

structure PeerKeyStore where
  identitySecret : Bytes := []
  identityPublic : Bytes := []
  roomKey : Option Bytes := none
  peers : Table UInt32 Bytes := ∅

namespace PeerKeyStore

def setIdentity (store : PeerKeyStore) (secretKey publicKey : Bytes) :
    Except Failure PeerKeyStore :=
  if secretKey.length ≠ kSecretKeySize ∨ publicKey.length ≠ kPublicKeySize then
    throw (.runtimeError "invalid identity key sizes")
  else return { store with identitySecret := secretKey, identityPublic := publicKey }

def setRoomKey (store : PeerKeyStore) (roomKey : Bytes) : Except Failure PeerKeyStore :=
  if roomKey.length ≠ kRoomKeySize then throw (.runtimeError "invalid room key size")
  else return { store with roomKey := some roomKey }

def setPeerPublic (store : PeerKeyStore) (peerId : UInt32) (publicKey : Bytes) :
    Except Failure PeerKeyStore :=
  if publicKey.length ≠ kPublicKeySize then throw (.runtimeError "invalid peer public key size")
  else return { store with peers := store.peers.insert peerId publicKey }

def erasePeer (store : PeerKeyStore) (peerId : UInt32) : PeerKeyStore :=
  { store with peers := store.peers.erase peerId }

def erasePeers (store : PeerKeyStore) (peerIds : List UInt32) : PeerKeyStore :=
  peerIds.foldl erasePeer store

def peerPublic (store : PeerKeyStore) (peerId : UInt32) : Option Bytes := store.peers.lookup peerId

-- The keys have the sizes the setters check, and the identity is a key pair of the cipher.
structure WellFormed (cipher : Monocypher) (store : PeerKeyStore) : Prop where
  secretSize : store.identitySecret.length = kSecretKeySize
  pair : store.identityPublic = cipher.x25519PublicKey store.identitySecret
  roomSize : ∀ roomKey ∈ store.roomKey, roomKey.length = kRoomKeySize
  peerSize : ∀ publicKey ∈ store.peers.values, publicKey.length = kPublicKeySize

instance (cipher : Monocypher) (store : PeerKeyStore) : Decidable (store.WellFormed cipher) :=
  decidable_of_iff
    (store.identitySecret.length = kSecretKeySize ∧
      store.identityPublic = cipher.x25519PublicKey store.identitySecret ∧
      (∀ roomKey ∈ store.roomKey, roomKey.length = kRoomKeySize) ∧
      ∀ publicKey ∈ store.peers.values, publicKey.length = kPublicKeySize)
    ⟨fun ⟨secretSize, pair, roomSize, peerSize⟩ => ⟨secretSize, pair, roomSize, peerSize⟩,
      fun wellFormed =>
        ⟨wellFormed.secretSize, wellFormed.pair, wellFormed.roomSize, wellFormed.peerSize⟩⟩

variable {store : PeerKeyStore}

theorem mem_peers_values {publicKey : Bytes} :
    publicKey ∈ store.peers.values ↔ ∃ peerId, store.peerPublic peerId = some publicKey :=
  Table.mem_values

theorem WellFormed.publicSize {cipher : Monocypher} (wellFormed : store.WellFormed cipher) :
    store.identityPublic.length = kPublicKeySize := by
  rw [wellFormed.pair, cipher.public_size]

theorem setIdentity_eq {secretKey publicKey : Bytes}
    (secretSize : secretKey.length = kSecretKeySize)
    (publicSize : publicKey.length = kPublicKeySize) :
    store.setIdentity secretKey publicKey =
      .ok { store with identitySecret := secretKey, identityPublic := publicKey } := by
  simp [setIdentity, secretSize, publicSize]

theorem peerPublic_insert (peerId other : UInt32) (publicKey : Bytes) :
    peerPublic { store with peers := store.peers.insert peerId publicKey } other =
      if other = peerId then some publicKey else store.peerPublic other :=
  Table.lookup_insert_eq _ _ _ _

theorem peerPublic_erasePeer (peerId other : UInt32) :
    (store.erasePeer peerId).peerPublic other =
      if other = peerId then none else store.peerPublic other :=
  Table.lookup_erase_eq _ _ _

theorem peerPublic_erasePeers (peerIds : List UInt32) (other : UInt32) :
    (store.erasePeers peerIds).peerPublic other =
      if other ∈ peerIds then none else store.peerPublic other := by
  induction peerIds generalizing store with
  | nil => simp [erasePeers]
  | cons peerId peerIds ih =>
    have first := @peerPublic_erasePeer store peerId other
    have rest := @ih (store.erasePeer peerId)
    simp only [erasePeers, List.foldl_cons] at rest ⊢
    rw [rest, first]
    by_cases same : other = peerId <;> simp [same]

theorem erasePeers_keys (peerIds : List UInt32) :
    (store.erasePeers peerIds).identitySecret = store.identitySecret ∧
      (store.erasePeers peerIds).identityPublic = store.identityPublic ∧
      (store.erasePeers peerIds).roomKey = store.roomKey := by
  induction peerIds generalizing store with
  | nil => exact ⟨rfl, rfl, rfl⟩
  | cons peerId peerIds ih => exact @ih (store.erasePeer peerId)

end PeerKeyStore

end ModbusChat.Client
