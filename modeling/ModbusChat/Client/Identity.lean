import ModbusChat.Client.ClientViewModel
import ModbusChat.Client.KeyStoreFile

set_option autoImplicit false

namespace ModbusChat.Client

open BigEndian Effects PeerKeyStore Wire

-- The call of `load`: the client goes on with the store as `load` has left it.
def startIdentity (cipher : Monocypher) (file : Option Bytes) (password : Bytes) :
    ClientM Unit := do
  let loaded := (EncryptedKeyStoreFile.load cipher file password).run (← Action.get).keyStore
  Action.modify fun client => { client with keyStore := loaded.state }
  loadOrCreateIdentity cipher loaded.result

def createdSecret (random : Nat → UInt8) : Bytes := (List.range kSecretKeySize).map random

@[simp] theorem createdSecret_length (random : Nat → UInt8) :
    (createdSecret random).length = kSecretKeySize := by
  simp [createdSecret]

section Creating

variable {cipher : Monocypher}

-- No keys came from the file, for a reason that the catch clause takes as one.
def NotLoaded : Except Failure Bool → Prop
  | .ok found => found = false
  | .error failure => failure.what?.isSome

theorem loadOrCreateIdentity_run {loaded : Except Failure Bool} (missing : NotLoaded loaded)
    (client : ClientViewModel) :
    ∃ output, (loadOrCreateIdentity cipher loaded).run client =
      ⟨{ client with
          keyStore := { client.keyStore with
            identitySecret := createdSecret client.random
            identityPublic := cipher.x25519PublicKey (createdSecret client.random) }
          random := fun i => client.random (i + kSecretKeySize) }, output, .ok ()⟩ := by
  have identity := @setIdentity_eq client.keyStore _ _ (createdSecret_length client.random)
    (cipher.public_size (createdSecret client.random))
  have caught : ∃ output, (catching (.lift loaded) fun what => do
      reportError "Keystore load failed, creating new keys" what
      return false).run client = ⟨client, output, .ok false⟩ := by
    match loaded, missing with
    | .ok false, _ => exact ⟨[], rfl⟩
    | .error (.runtimeError what), _ => exact ⟨_, rfl⟩
    | .error .badVariantAccess, _ => exact ⟨_, rfl⟩
  obtain ⟨output, caught⟩ := caught
  simp only [loadOrCreateIdentity, Action.run_bind, Action.run_get, Outcome.andThen_ok,
    Outcome.before_nil, caught, Bool.false_eq_true, if_false, generateKeypair, fillRandom,
    Action.run_modify, Action.run_pure, Action.run_lift]
  rw [show (List.range kSecretKeySize).map client.random = createdSecret client.random from rfl,
    identity]
  exact ⟨_, rfl⟩

theorem loadOrCreateIdentity_created {loaded : Except Failure Bool} (missing : NotLoaded loaded)
    (client : ClientViewModel) :
    ((loadOrCreateIdentity cipher loaded).run client).state =
      { client with
        keyStore := { client.keyStore with
          identitySecret := createdSecret client.random
          identityPublic := cipher.x25519PublicKey (createdSecret client.random) }
        random := fun i => client.random (i + kSecretKeySize) } := by
  obtain ⟨output, run⟩ := @loadOrCreateIdentity_run cipher loaded missing client
  rw [run]

theorem load_unrecognised {sealed blob password : Bytes}
    (opened : decryptKeystore cipher password sealed = .ok blob) (unrecognised : Unrecognised blob)
    (store : PeerKeyStore) :
    ∃ result, (EncryptedKeyStoreFile.load cipher (some sealed) password).run store =
      ⟨store, [], result⟩ ∧
      NotLoaded result := by
  obtain ⟨what, thrown⟩ := deserialize_unrecognised unrecognised
  by_cases empty : sealed = []
  · refine ⟨.ok false, ?_, rfl⟩
    simp only [EncryptedKeyStoreFile.load, if_pos empty]
    rfl
  · refine ⟨.error (.runtimeError what), ?_, rfl⟩
    simp only [EncryptedKeyStoreFile.load, if_neg empty, Action.run_bind, Action.run_lift, opened,
      Outcome.andThen_ok, Outcome.before_nil, thrown store, Outcome.andThen_error]

theorem startIdentity_unrecognised {sealed blob password : Bytes}
    (opened : decryptKeystore cipher password sealed = .ok blob) (unrecognised : Unrecognised blob)
    (client : ClientViewModel) :
    ((startIdentity cipher (some sealed) password).run client).state.keyStore =
      { client.keyStore with
        identitySecret := createdSecret client.random
        identityPublic := cipher.x25519PublicKey (createdSecret client.random) } := by
  obtain ⟨result, loaded, missing⟩ := load_unrecognised opened unrecognised client.keyStore
  simp only [startIdentity, Action.run_bind, Action.run_get, Outcome.andThen_ok, Outcome.before_nil,
    loaded, Action.run_modify, loadOrCreateIdentity_created missing]

end Creating

-- From its first write on, `deserialize` leaves the identity it has read.
theorem deserialize_marks {blob : Bytes} (recognised : ¬ Unrecognised blob) :
    ((deserialize blob).run {}).state ≠ {} := by
  obtain ⟨secret, publicKey, rest, secretSize, publicSize, long, rfl⟩ := recognised_split recognised
  have kept : KeptByRest (·.identitySecret = secret) :=
    { clearRoomKey := fun _ same => same
      setRoomKey := fun _ _ _ same => same
      clearPeers := fun _ same => same
      setPeerPublic := fun _ _ _ _ same => same }
  intro untouched
  rw [deserialize_recognised secretSize publicSize long] at untouched
  have written := kept.deserializeRest
    ((kKeyStoreVersion :: (secret ++ publicKey)) ++ rest)
    (kKeyStoreVersion :: (secret ++ publicKey)).length
    { identitySecret := secret, identityPublic := publicKey } rfl
  rw [untouched] at written
  rw [← show [] = secret from written] at secretSize
  exact absurd secretSize (by decide)

/-- What `deserialize` rejects leaves no trace just where it is rejected before the first write. -/
theorem rejected_without_trace_iff (cipher : Monocypher) (blob : Bytes) :
    (Unrecognised blob ↔ ∀ store,
      (∃ failure, ((deserialize blob).run store).result = .error failure) ∧
        ((deserialize blob).run store).state = store) ∧
      (Unrecognised blob → ∀ client sealed password,
        decryptKeystore cipher password sealed = .ok blob →
        let keyStore := ((startIdentity cipher (some sealed) password).run client).state.keyStore
        keyStore.identitySecret = createdSecret client.random ∧
          keyStore.roomKey = client.keyStore.roomKey ∧ keyStore.peers = client.keyStore.peers) := by
  refine ⟨⟨fun unrecognised store => ?_, fun untouched => ?_⟩, ?_⟩
  · obtain ⟨what, thrown⟩ := deserialize_unrecognised unrecognised
    rw [thrown store]
    exact ⟨⟨_, rfl⟩, rfl⟩
  · by_contra recognised
    exact deserialize_marks recognised (untouched {}).2
  · intro unrecognised client sealed password opened
    rw [startIdentity_unrecognised opened unrecognised client]
    exact ⟨rfl, rfl, rfl⟩

-- The second of two entries is cut off: the room key and the first entry stay, next to a new
-- identity.
theorem rejected_cutShort_traces :
    ((deserialize cutShort).run {}).result = .error
      (.runtimeError "truncated peer entry in keystore") ∧
      ((deserialize cutShort).run {}).state.roomKey = some (List.replicate 32 4) ∧
      ((deserialize cutShort).run {}).state.peerPublic 5 = some (List.replicate 32 6) ∧
      let file :=
        encryptKeystore transparent (List.replicate kSaltSize 1) (List.replicate kNonceSize 2)
        (ascii "secret") cutShort
      let client := ((startIdentity transparent (some file) (ascii "secret")).run
        { random := fun _ => 9 }).state
      client.keyStore.identitySecret = List.replicate 32 9 ∧
        client.keyStore.roomKey = some (List.replicate 32 4) ∧
        client.keyStore.peerPublic 5 = some (List.replicate 32 6) := by
  decide +kernel

end ModbusChat.Client
