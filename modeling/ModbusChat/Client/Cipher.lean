import ModbusChat.Wire.ModbusTcp

set_option autoImplicit false

namespace ModbusChat.Client

open BigEndian Effects Wire

def kPublicKeySize : Nat := 32
def kSecretKeySize : Nat := 32
def kRoomKeySize : Nat := 32
def kNonceSize : Nat := 24
def kMacSize : Nat := 16
def kSaltSize : Nat := 16

/--
The primitives of the vendored library, with the sizes of the buffers they fill. `aeadLock` returns
the tag and the ciphertext.
-/
structure Monocypher where
  x25519 : (mySecret peerPublic : Bytes) → Bytes
  x25519PublicKey : (secretKey : Bytes) → Bytes
  aeadLock : (key nonce plain : Bytes) → Bytes × Bytes
  aeadUnlock : (key nonce mac ct : Bytes) → Option Bytes
  blake2b : (message : Bytes) → Bytes
  public_size (secretKey : Bytes) : (x25519PublicKey secretKey).length = kPublicKeySize
  mac_size (key nonce plain : Bytes) : (aeadLock key nonce plain).1.length = kMacSize
  ct_size (key nonce plain : Bytes) : (aeadLock key nonce plain).2.length = plain.length

/--
The cipher as the protocol is meant to rely on it: both sides of an exchange derive one key, and a
ciphertext opens to what was locked into it or, under another key, not at all.
-/
structure Monocypher.Ideal (cipher : Monocypher) : Prop where
  agreement (mine theirs : Bytes) :
    cipher.x25519 mine (cipher.x25519PublicKey theirs) =
      cipher.x25519 theirs (cipher.x25519PublicKey mine)
  unlock_lock (key nonce plain : Bytes) :
    cipher.aeadUnlock key nonce (cipher.aeadLock key nonce plain).1
      (cipher.aeadLock key nonce plain).2 = some plain
  unlock_lock_eq (key other nonce plain opened : Bytes) :
    cipher.aeadUnlock other nonce (cipher.aeadLock key nonce plain).1
      (cipher.aeadLock key nonce plain).2 = some opened → opened = plain

def requireSize (data : Bytes) (expected : Nat) (label : String) : Except Failure Unit :=
  if data.length ≠ expected then throw (.runtimeError (label ++ " has invalid size")) else return

-- Where the source draws a nonce, a salt or a key, the functions below take it as an argument.
section Cipher

variable (cipher : Monocypher)

def sharedSecret (mySecret peerPublic : Bytes) : Except Failure Bytes := do
  requireSize mySecret kSecretKeySize "secret key"
  requireSize peerPublic kPublicKeySize "peer public key"
  return cipher.x25519 mySecret peerPublic

def aeadEncrypt (key nonce plain : Bytes) : Bytes :=
  let (mac, ct) := cipher.aeadLock key nonce plain
  nonce ++ (mac ++ ct)

def aeadDecrypt (key blob : Bytes) : Except Failure Bytes :=
  if blob.length < kNonceSize + kMacSize then throw (.runtimeError "ciphertext too short")
  else
    match cipher.aeadUnlock key (blob.take kNonceSize) ((blob.drop kNonceSize).take kMacSize)
        (blob.drop (kNonceSize + kMacSize)) with
    | none => throw (.runtimeError "decryption failed")
    | some plain => return plain

def encryptForPeer (nonce mySecret peerPublic plaintext : Bytes) : Except Failure Bytes := do
  let shared ← sharedSecret cipher mySecret peerPublic
  return aeadEncrypt cipher shared nonce plaintext

def decryptFromPeer (mySecret peerPublic ciphertext : Bytes) : Except Failure Bytes := do
  let shared ← sharedSecret cipher mySecret peerPublic
  aeadDecrypt cipher shared ciphertext

def sealRoomKey (nonce mySecret peerPublic roomKey : Bytes) : Except Failure Bytes := do
  requireSize roomKey kRoomKeySize "room key"
  let shared ← sharedSecret cipher mySecret peerPublic
  return aeadEncrypt cipher shared nonce roomKey

def openRoomKey (mySecret peerPublic sealed : Bytes) : Except Failure Bytes := do
  let shared ← sharedSecret cipher mySecret peerPublic
  let room ← aeadDecrypt cipher shared sealed
  if room.length ≠ kRoomKeySize then throw (.runtimeError "invalid room key payload")
  else return room

def encryptWithRoomKey (nonce roomKey plaintext : Bytes) : Except Failure Bytes := do
  requireSize roomKey kRoomKeySize "room key"
  return aeadEncrypt cipher roomKey nonce plaintext

def decryptWithRoomKey (roomKey ciphertext : Bytes) : Except Failure Bytes := do
  requireSize roomKey kRoomKeySize "room key"
  aeadDecrypt cipher roomKey ciphertext

def derivePasswordKey (password salt : Bytes) : Bytes := cipher.blake2b (password ++ salt)

def encryptKeystore (salt nonce password plaintext : Bytes) : Bytes :=
  salt ++ aeadEncrypt cipher (derivePasswordKey cipher password salt) nonce plaintext

def decryptKeystore (password ciphertext : Bytes) : Except Failure Bytes :=
  if ciphertext.length < kSaltSize + kNonceSize + kMacSize then
    throw (.runtimeError "keystore blob too short")
  else
    aeadDecrypt cipher (derivePasswordKey cipher password (ciphertext.take kSaltSize))
      (ciphertext.drop kSaltSize)

end Cipher

theorem requireSize_ok {data : Bytes} {expected : Nat} {label : String}
    (size : data.length = expected) : requireSize data expected label = .ok () := by
  simp [requireSize, size]

theorem requireSize_error {data : Bytes} {expected : Nat} (label : String)
    (size : data.length ≠ expected) :
    requireSize data expected label = .error (.runtimeError (label ++ " has invalid size")) := by
  simp [requireSize, size]

theorem sharedSecret_ok {cipher : Monocypher} {mySecret peerPublic : Bytes}
    (secret : mySecret.length = kSecretKeySize) (peer : peerPublic.length = kPublicKeySize) :
    sharedSecret cipher mySecret peerPublic = .ok (cipher.x25519 mySecret peerPublic) := by
  simp [sharedSecret, requireSize_ok secret, requireSize_ok peer]

theorem sharedSecret_refused {cipher : Monocypher} {mySecret peerPublic : Bytes}
    (wrong : ¬ (mySecret.length = kSecretKeySize ∧ peerPublic.length = kPublicKeySize)) :
    ∃ what, sharedSecret cipher mySecret peerPublic = .error (.runtimeError what) := by
  by_cases secret : mySecret.length = kSecretKeySize
  · have peer : peerPublic.length ≠ kPublicKeySize := fun size => wrong ⟨secret, size⟩
    exact ⟨_, by rw [sharedSecret, requireSize_ok secret, ok_bind, requireSize_error _ peer,
      error_bind]⟩
  · exact ⟨_, by rw [sharedSecret, requireSize_error _ secret, error_bind]⟩

theorem openRoomKey_size {cipher : Monocypher} {mySecret peerPublic sealed room : Bytes}
    (opened : openRoomKey cipher mySecret peerPublic sealed = .ok room) :
    room.length = kRoomKeySize := by
  obtain ⟨shared, _, opened⟩ := bind_eq_ok.mp opened
  obtain ⟨plain, _, opened⟩ := bind_eq_ok.mp opened
  split_ifs at opened with size
  exact Except.ok.inj opened ▸ not_not.mp size

-- A ciphertext an honest client made of a room key.
def Sealed (cipher : Monocypher) (sealed roomKey : Bytes) : Prop :=
  ∃ key nonce, nonce.length = kNonceSize ∧ sealed = aeadEncrypt cipher key nonce roomKey

theorem sealRoomKey_sealed {cipher : Monocypher} {nonce mySecret peerPublic roomKey sealed : Bytes}
    (nonceSize : nonce.length = kNonceSize)
    (done : sealRoomKey cipher nonce mySecret peerPublic roomKey = .ok sealed) :
    Sealed cipher sealed roomKey := by
  obtain ⟨_, _, done⟩ := bind_eq_ok.mp done
  obtain ⟨shared, _, done⟩ := bind_eq_ok.mp done
  exact ⟨shared, nonce, nonceSize, (Except.ok.inj done).symm⟩

theorem aeadEncrypt_length (cipher : Monocypher) (key nonce plain : Bytes) :
    (aeadEncrypt cipher key nonce plain).length = nonce.length + kMacSize + plain.length := by
  simp only [aeadEncrypt, List.length_append, cipher.mac_size, cipher.ct_size]
  omega

theorem aeadDecrypt_aeadEncrypt (cipher : Monocypher) {nonce : Bytes}
    (size : nonce.length = kNonceSize) (key other plain : Bytes) :
    aeadDecrypt cipher other (aeadEncrypt cipher key nonce plain) =
      match cipher.aeadUnlock other nonce (cipher.aeadLock key nonce plain).1
          (cipher.aeadLock key nonce plain).2 with
      | none => .error (.runtimeError "decryption failed")
      | some opened => .ok opened := by
  have long : ¬ (aeadEncrypt cipher key nonce plain).length < kNonceSize + kMacSize := by
    rw [aeadEncrypt_length, size]
    omega
  have mac := cipher.mac_size key nonce plain
  have nonceTaken : (aeadEncrypt cipher key nonce plain).take kNonceSize = nonce := by
    rw [← size, aeadEncrypt, List.take_left]
  have rest : (aeadEncrypt cipher key nonce plain).drop kNonceSize =
      (cipher.aeadLock key nonce plain).1 ++ (cipher.aeadLock key nonce plain).2 := by
    rw [← size, aeadEncrypt, List.drop_left]
  rw [aeadDecrypt, if_neg long, nonceTaken, ← List.drop_drop, rest, ← mac, List.take_left,
    List.drop_left]
  rfl

section Ideal

variable {cipher : Monocypher} (ideal : cipher.Ideal)
include ideal

theorem aeadDecrypt_same {nonce : Bytes} (size : nonce.length = kNonceSize) (key plain : Bytes) :
    aeadDecrypt cipher key (aeadEncrypt cipher key nonce plain) = .ok plain := by
  rw [aeadDecrypt_aeadEncrypt cipher size, ideal.unlock_lock]

theorem aeadDecrypt_other {nonce : Bytes} (size : nonce.length = kNonceSize)
    (key other plain : Bytes) :
    aeadDecrypt cipher other (aeadEncrypt cipher key nonce plain) = .ok plain ∨
      aeadDecrypt cipher other (aeadEncrypt cipher key nonce plain) =
        .error (.runtimeError "decryption failed") := by
  rw [aeadDecrypt_aeadEncrypt cipher size]
  split
  · exact .inr rfl
  · next opened unlocked =>
    exact .inl (congrArg Except.ok (ideal.unlock_lock_eq key other nonce plain opened unlocked))

theorem decryptFromPeer_agreed {nonce mine theirs : Bytes} (nonceSize : nonce.length = kNonceSize)
    (theirsSize : theirs.length = kSecretKeySize) (plain : Bytes) :
    decryptFromPeer cipher theirs (cipher.x25519PublicKey mine)
      (aeadEncrypt cipher (cipher.x25519 mine (cipher.x25519PublicKey theirs)) nonce plain) =
        .ok plain := by
  simp only [decryptFromPeer, sharedSecret_ok theirsSize (cipher.public_size mine), ok_bind,
    ← ideal.agreement mine theirs, aeadDecrypt_same ideal nonceSize]

theorem openRoomKey_sealRoomKey {nonce mine theirs roomKey : Bytes}
    (nonceSize : nonce.length = kNonceSize) (mineSize : mine.length = kSecretKeySize)
    (theirsSize : theirs.length = kSecretKeySize) (roomSize : roomKey.length = kRoomKeySize) :
    ∃ sealed, sealRoomKey cipher nonce mine (cipher.x25519PublicKey theirs) roomKey = .ok sealed ∧
      openRoomKey cipher theirs (cipher.x25519PublicKey mine) sealed = .ok roomKey := by
  refine ⟨aeadEncrypt cipher (cipher.x25519 mine (cipher.x25519PublicKey theirs)) nonce roomKey,
    ?_, ?_⟩
  · simp [sealRoomKey, requireSize_ok roomSize,
      sharedSecret_ok mineSize (cipher.public_size theirs)]
  · -- both sides derive the same key, so the ciphertext is opened under the key it was locked with
    have opened :=
      ideal.unlock_lock (cipher.x25519 mine (cipher.x25519PublicKey theirs)) nonce roomKey
    simp only [openRoomKey, sharedSecret_ok theirsSize (cipher.public_size mine), ok_bind,
      aeadDecrypt_aeadEncrypt cipher nonceSize, ← ideal.agreement mine theirs, opened]
    simp [roomSize]

theorem openRoomKey_sealed {mySecret peerPublic sealed roomKey opened : Bytes}
    (made : Sealed cipher sealed roomKey)
    (done : openRoomKey cipher mySecret peerPublic sealed = .ok opened) : opened = roomKey := by
  obtain ⟨key, nonce, size, rfl⟩ := made
  obtain ⟨shared, _, done⟩ := bind_eq_ok.mp done
  obtain ⟨room, decrypted, done⟩ := bind_eq_ok.mp done
  rw [aeadDecrypt_aeadEncrypt cipher size] at decrypted
  split at decrypted
  · simp at decrypted
  · next plain unlocked =>
    obtain rfl : plain = room := Except.ok.inj decrypted
    split_ifs at done
    obtain rfl : plain = opened := Except.ok.inj done
    exact ideal.unlock_lock_eq key shared nonce roomKey plain unlocked

theorem Sealed.unique {sealed roomKey other : Bytes} (made : Sealed cipher sealed roomKey)
    (again : Sealed cipher sealed other) : roomKey = other := by
  obtain ⟨key, nonce, size, rfl⟩ := made
  obtain ⟨key', nonce', size', same⟩ := again
  have opens := aeadDecrypt_aeadEncrypt cipher size key key roomKey
  rw [ideal.unlock_lock, same, aeadDecrypt_aeadEncrypt cipher size'] at opens
  split at opens
  · simp at opens
  · next plain unlocked =>
    rw [← Except.ok.inj opens]
    exact ideal.unlock_lock_eq key' key nonce' other plain unlocked

end Ideal

def fitted (size : Nat) (bytes : Bytes) : Bytes := (bytes ++ List.replicate size 0).take size

theorem fitted_length (size : Nat) (bytes : Bytes) : (fitted size bytes).length = size := by
  simp [fitted]

theorem fitted_fitted (size : Nat) (bytes : Bytes) :
    fitted size (fitted size bytes) = fitted size bytes := by
  rw [fitted, List.take_append_of_le_length (fitted_length size bytes).ge,
    List.take_of_length_le (fitted_length size bytes).le]

/--
A cipher that hides nothing but computes: the tag of a ciphertext is the key it was made with. It
shows that the assumptions can be met, and runs of the system can be evaluated with it.
-/
def transparent : Monocypher where
  x25519 mySecret peerPublic :=
    List.zipWith (· + ·) (fitted kSecretKeySize mySecret) (fitted kSecretKeySize peerPublic)
  x25519PublicKey secretKey := fitted kPublicKeySize secretKey
  aeadLock key _ plain := (fitted kMacSize key, plain)
  aeadUnlock key _ mac ct := if mac = fitted kMacSize key then some ct else none
  blake2b := fitted kSecretKeySize
  public_size _ := fitted_length _ _
  mac_size _ _ _ := fitted_length _ _
  ct_size _ _ _ := rfl

theorem transparent_ideal : transparent.Ideal where
  agreement mine theirs := by
    change List.zipWith _ _ (fitted kSecretKeySize (fitted kSecretKeySize _)) =
      List.zipWith _ _ (fitted kSecretKeySize (fitted kSecretKeySize _))
    rw [fitted_fitted, fitted_fitted, List.zipWith_comm]
    simp only [UInt8.add_comm]
  unlock_lock key nonce plain := by simp [transparent]
  unlock_lock_eq key other nonce plain opened unlocked := by
    simp only [transparent] at unlocked
    split_ifs at unlocked
    exact (Option.some.inj unlocked).symm

end ModbusChat.Client
