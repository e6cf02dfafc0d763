import ModbusChat.Client.Lifecycle

set_option autoImplicit false

-- The keystore file is all that a session hands on. It is written after the receive thread has been
-- joined, so it holds the keys the session ended with, and no later session takes the identity
-- away.

namespace ModbusChat.Client

open BigEndian Common Effects PeerKeyStore Wire

structure SameKeys (first second : PeerKeyStore) : Prop where
  secret : first.identitySecret = second.identitySecret
  shared : first.identityPublic = second.identityPublic
  room : first.roomKey = second.roomKey
  peers : ∀ peerId, first.peerPublic peerId = second.peerPublic peerId

-- Whoever loads the file gets these keys, whatever keys it had.
def Stores (cipher : Monocypher) (password : Bytes) (file : Option Bytes) (store : PeerKeyStore) :
    Prop :=
  ∃ loaded, SameKeys loaded store ∧
    ∀ target, (EncryptedKeyStoreFile.load cipher file password).run target = ⟨loaded, [], .ok true⟩

section Stores

variable {cipher : Monocypher} {store : PeerKeyStore}

theorem serialize_few {plain : Bytes} (serialized : store.serialize = .ok plain) :
    store.peers.entries.length ≤ kMaxU16Count := by
  unfold serialize at serialized
  split_ifs at serialized with identity many
  · exact not_lt.mp many

theorem stores_sealed
    (inverts : ∀ key nonce plain, cipher.aeadUnlock key nonce (cipher.aeadLock key nonce plain).1
      (cipher.aeadLock key nonce plain).2 = some plain)
    (sized : KeySizes store) (identity : store.hasIdentity) {plain salt nonce : Bytes}
    (serialized : store.serialize = .ok plain) (saltSize : salt.length = kSaltSize)
    (nonceSize : nonce.length = kNonceSize) (password : Bytes) :
    Stores cipher password (some (encryptKeystore cipher salt nonce password plain)) store := by
  obtain ⟨written, same, readBack⟩ :=
    deserialize_serialize sized identity (serialize_few serialized)
  obtain rfl : written = plain := Except.ok.inj (same.symm.trans serialized)
  have opened := decryptKeystore_encryptKeystore inverts saltSize nonceSize password written
  have present : encryptKeystore cipher salt nonce password written ≠ [] := by
    refine List.append_ne_nil_of_left_ne_nil ?_ _
    rintro rfl
    exact absurd saltSize (by decide)
  refine ⟨{ store with
      peers := store.peers.entries.foldl (fun peers entry => peers.insert entry.1 entry.2) ∅ },
    ⟨rfl, rfl, rfl, fun peerId => ?_⟩, fun target => ?_⟩
  · refine (Table.lookup_foldl_insert store.peers.nodupKeys ∅ peerId).trans ?_
    rw [Table.lookup_none, Option.or_none]
    rfl
  · simp only [EncryptedKeyStoreFile.load, if_neg present, Action.run_bind, Action.run_lift, opened,
      Outcome.andThen_ok, Outcome.before_nil, readBack target, Action.run_pure]

theorem startIdentity_loaded {file : Option Bytes} {password : Bytes} {client : ClientViewModel}
    (found : ((EncryptedKeyStoreFile.load cipher file password).run client.keyStore).result =
      .ok true) :
    ((startIdentity cipher file password).run client).state.keyStore =
      ((EncryptedKeyStoreFile.load cipher file password).run client.keyStore).state := by
  simp only [startIdentity, Action.run_bind, Action.run_get, Outcome.andThen_ok, Outcome.before_nil,
    found, Action.run_modify]
  rfl

theorem deserialize_identity {blob : Bytes}
    (returned : ((deserialize blob).run store).result = .ok ()) :
    ((deserialize blob).run store).state.hasIdentity := by
  by_cases unrecognised : Unrecognised blob
  · obtain ⟨what, thrown⟩ := deserialize_unrecognised unrecognised
    rw [thrown store] at returned
    cases returned
  · obtain ⟨secret, publicKey, rest, secretSize, publicSize, long, rfl⟩ :=
      recognised_split unrecognised
    have kept : KeptByRest (·.identitySecret = secret) :=
      { clearRoomKey := fun _ same => same
        setRoomKey := fun _ _ _ same => same
        clearPeers := fun _ same => same
        setPeerPublic := fun _ _ _ _ same => same }
    rw [deserialize_recognised secretSize publicSize long, hasIdentity,
      show _ = secret from kept.deserializeRest _ _ _ rfl]
    cases secret with
    | nil => exact absurd secretSize (by decide)
    | cons byte bytes => rfl

theorem load_identity {file : Option Bytes} {password : Bytes}
    (returned : ((EncryptedKeyStoreFile.load cipher file password).run store).result = .ok true) :
    ((EncryptedKeyStoreFile.load cipher file password).run store).state.hasIdentity := by
  unfold EncryptedKeyStoreFile.load at returned ⊢
  split at returned
  · cases returned
  split at returned
  · cases returned
  rename_i sealed present
  simp only [if_neg present, Action.run_bind, Action.run_lift] at returned ⊢
  cases opened : decryptKeystore cipher password sealed with
  | error failure => simp [opened] at returned
  | ok plain =>
    simp only [opened, Outcome.andThen_ok, Outcome.before_nil, Action.run_bind] at returned ⊢
    have identity := @deserialize_identity store plain
    generalize (deserialize plain).run store = outcome at identity returned ⊢
    obtain ⟨state, output, failure | value⟩ := outcome
    · cases returned
    · exact identity rfl

theorem startIdentity_identity (file : Option Bytes) (password : Bytes) (client : ClientViewModel) :
    ((startIdentity cipher file password).run client).state.keyStore.hasIdentity := by
  have bounded := @load_bounded cipher file password client.keyStore
  have found := @load_identity cipher client.keyStore file password
  simp only [startIdentity, Action.run_bind, Action.run_get, Action.run_modify, Outcome.andThen_ok,
    Outcome.before_nil]
  generalize (EncryptedKeyStoreFile.load cipher file password).run client.keyStore =
    loaded at bounded found ⊢
  rcases loaded_cases bounded with present | missing
  · rw [present]
    exact found present
  · rw [loadOrCreateIdentity_created missing]
    rfl

end Stores

def MainPhase.identified : MainPhase → Bool
  | .initLogger | .loadOrCreateIdentity => false
  | _ => true

def MainPhase.saved : MainPhase → Bool
  | .closeSocket | .clearSocket | .closeLogger | .handleFailure | .exited => true
  | _ => false

namespace Process

def Whole (process : Process) : ProcessEvent → Bool
  | .main replies =>
      match process.main with
      | .writeKeystore fd _ => replies.kept.isNone ∧ process.descriptors.lookup fd = some .keystore
      | _ => true
  | _ => true

def Opens (process : Process) : ProcessEvent → Bool
  | .main replies => process.main ≠ .saveKeystore ∨ replies.keystore.isSome
  | _ => true

section Saving

variable {cipher : Monocypher} {process later : Process} {event : ProcessEvent}
  {effects : List ProcessEffect}

structure Saving (cipher : Monocypher) (process : Process) : Prop where
  sized : KeySizes process.client.keyStore
  identified : process.main.identified → process.client.keyStore.hasIdentity
  writing : ∀ fd sealed, process.main = .writeKeystore fd sealed →
    Stores cipher process.config.keystorePassword (some sealed) process.client.keyStore
  saved : process.main.saved →
    Stores cipher process.config.keystorePassword process.keystore process.client.keyStore ∨
      kMaxU16Count < process.client.keyStore.peers.entries.length

theorem Saving.of_same (saving : process.Saving cipher)
    (keys : later.client.keyStore = process.client.keyStore)
    (file : later.keystore = process.keystore) (config : later.config = process.config)
    (identified : later.main.identified → process.main.identified)
    (writing : ∀ fd sealed, later.main = .writeKeystore fd sealed →
      process.main = .writeKeystore fd sealed)
    (saved : later.main.saved → process.main.saved) : later.Saving cipher := by
  obtain ⟨sized, identity, opened, stored⟩ := saving
  rw [← keys] at sized identity opened stored
  rw [← config] at opened stored
  rw [← file] at stored
  exact ⟨sized, fun phase => identity (identified phase),
    fun fd sealed phase => opened fd sealed (writing _ _ phase),
    fun phase => stored (saved phase)⟩

theorem Saving.handled (saving : process.Saving cipher)
    (handled : process.Handled later.client effects) (identified : process.main.identified)
    (unjoined : later.main.joined = false) : later.Saving cipher := by
  have secret : later.client.keyStore.identitySecret = process.client.keyStore.identitySecret :=
    congrArg (·.2.1) handled.identity
  refine ⟨handled.sized saving.sized, fun _ => ?_, fun fd sealed phase => ?_, fun saved => ?_⟩
  · rw [hasIdentity, secret]
    exact saving.identified identified
  · simp [phase, MainPhase.joined] at unjoined
  · cases phase : later.main <;> simp_all [MainPhase.joined, MainPhase.saved]

theorem Moved.config (moved : Moved cipher process event later effects) :
    later.config = process.config := by
  cases moved <;> rfl

theorem Moved.saving
    (inverts : ∀ key nonce plain, cipher.aeadUnlock key nonce (cipher.aeadLock key nonce plain).1
      (cipher.aeadLock key nonce plain).2 = some plain)
    (moved : Moved cipher process event later effects) (phased : process.Phased)
    (saving : process.Saving cipher) (opens : process.Opens event) (whole : process.Whole event) :
    later.Saving cipher := by
  cases moved with
  | rests blocked => exact saving
  | identifies phase reports =>
    exact ⟨(identified cipher process).sized saving.sized, fun _ => startIdentity_identity _ _ _,
      by simp, by simp [MainPhase.saved]⟩
  | starts phase handled | takesLine phase handled =>
    exact saving.handled handled (by simp [phase, MainPhase.identified]) rfl
  | throws phase handled =>
    exact saving.handled handled (by rcases phase with
      phase | phase <;> simp [phase, MainPhase.identified]) rfl
  | takesFrame phase handled =>
    obtain ⟨unjoined, started⟩ := phased.of_busy (by rw [phase]; rfl)
    refine saving.handled handled ?_ unjoined
    cases phase : process.main <;> simp_all [MainPhase.starting, MainPhase.identified]
  | opensKeystore phase given identity serialized saltSize nonceSize =>
    refine ⟨saving.sized, fun _ => identity, fun fd sealed same => ?_, by simp [MainPhase.saved]⟩
    obtain ⟨rfl, rfl⟩ := MainPhase.writeKeystore.inj same
    exact stores_sealed inverts saving.sized identity serialized saltSize nonceSize _
  | writesKeystore phase reports =>
    have stored := saving.writing _ _ phase
    refine ⟨saving.sized, fun _ => saving.identified (by simp [phase, MainPhase.identified]),
      by simp, fun _ => .inl ?_⟩
    simp only [Whole, phase, Option.isNone_iff_eq_none, decide_eq_true_eq] at whole
    simpa [whole] using stored
  | savesNothing phase reason reports =>
    have identity := saving.identified (by simp [phase, MainPhase.identified])
    refine ⟨saving.sized, fun _ => identity, by simp, fun _ => .inr ?_⟩
    obtain absent | ⟨failure, refused⟩ | unopened := reason
    · simp [identity] at absent
    · by_contra few
      simp [serialize, identity, few] at refused
    · simp [Opens, phase, unopened] at opens
  | leavesLoop phase =>
    rcases phase with ⟨phase, -⟩ | phase <;>
      exact saving.of_same rfl rfl rfl (by simp [phase, MainPhase.identified]) (by simp)
        (by simp [MainPhase.saved])
  | shutsDown phase =>
    rcases phase with ⟨phase, rfl⟩ | ⟨phase, rfl⟩ <;>
      exact saving.of_same rfl rfl rfl (by simp [phase, MainPhase.identified]) (by simp)
        (by simp [MainPhase.saved])
  | closesLogger phase further =>
    refine saving.of_same rfl rfl rfl (by simp [phase, MainPhase.identified])
      (fun fd sealed same => ?_)
      (by simp [phase, MainPhase.saved])
    split at further <;> simp [further] at same
  | checksRunning phase | losesServer phase | claimsExit phase | comesLate phase
  | saysServerLost phase
  | receiverShutsDown phase | isInterrupted installed | isCutOff =>
    exact saving.of_same rfl rfl rfl id (fun _ _ => id) id
  | _ =>
    exact saving.of_same rfl rfl rfl (by simp_all [MainPhase.identified]) (by simp)
      (by simp_all [MainPhase.saved])

theorem start_saving (config : ClientConfig) (keystore : Option Bytes) (random : Nat → UInt8) :
    (start config keystore random).Saving cipher :=
  ⟨keySizes_empty, by simp [start, MainPhase.identified], by simp [start],
    by simp [start, MainPhase.saved]⟩

theorem Moved.initLogger {replies : Replies}
    (moved : Moved cipher process (.main replies) later effects)
    (awake : process.urandom .main = none) (phase : process.main = .initLogger) :
    later.main = .loadOrCreateIdentity ∧ later.urandom .main = none ∧
      later.client = process.client ∧
      later.keystore = process.keystore := by
  cases moved with
  | runsUnlogged _ _ | opensLog _ _ _ => exact ⟨rfl, awake, rfl, rfl⟩
  | rests blocked => simp [Blocked, phase, awake] at blocked
  | _ => simp_all

theorem Moved.loadOrCreateIdentity {replies : Replies}
    (moved : Moved cipher process (.main replies) later effects)
    (awake : process.urandom .main = none) (phase : process.main = .loadOrCreateIdentity) :
    later.client =
      ((startIdentity cipher process.keystore process.config.keystorePassword).run
        process.client).state := by
  cases moved with
  | identifies _ _ => rfl
  | rests blocked => simp [Blocked, phase, awake] at blocked
  | _ => simp_all

theorem start_loads (config : ClientConfig) (keystore : Option Bytes) (random : Nat → UInt8)
    (first second : Replies) :
    ((start config keystore random).after cipher [.main first, .main second]).client =
      ((startIdentity cipher keystore config.keystorePassword).run
        (start config keystore random).client).state := by
  have one := moved cipher (start config keystore random) (.main first)
  obtain ⟨phase, awake, client, file⟩ := one.initLogger rfl rfl
  have two := moved cipher ((start config keystore random).step cipher (.main first)) (.main second)
  have loaded := two.loadOrCreateIdentity awake phase
  rw [client, file, one.config] at loaded
  exact loaded

end Saving

end Process

open Process

/--
A session that has ended, by the user, a signal, the server or an exception, leaves a file from
which the next session gets exactly the keys it ended with, unless it knows too many peers.
-/
theorem session_resumes {cipher : Monocypher}
    (inverts : ∀ key nonce plain, cipher.aeadUnlock key nonce (cipher.aeadLock key nonce plain).1
      (cipher.aeadLock key nonce plain).2 = some plain)
    (config : ClientConfig) (keystore : Option Bytes) (random : Nat → UInt8)
    {events : List ProcessEvent}
    (saves : Runs.Admissible (fun process event => process.Opens event ∧ process.Whole event)
      (step cipher) (start config keystore random) events)
    (ended : ((start config keystore random).after cipher events).main = .exited)
    (few :
    ((start config keystore random).after cipher events).client.keyStore.peers.entries.length ≤
      kMaxU16Count) (later : Nat → UInt8) (first second : Replies) :
    let last := (start config keystore random).after cipher events
    SameKeys
      ((start config last.keystore later).after cipher [.main first, .main second]).client.keyStore
      last.client.keyStore := by
  intro last
  have reachable : Runs.Reachable (· = start config keystore random)
      (fun process event => process.Opens event ∧ process.Whole event) (step cipher) last :=
    .foldl (.start rfl) saves
  obtain ⟨-, same, saving⟩ := reachable.invariant
    (fun process => process.Phased ∧ process.config = config ∧ process.Saving cipher)
    (by rintro _ rfl; exact ⟨start_phased _ _ _, rfl, start_saving _ _ _⟩)
    (fun process event holds may =>
      have moved := moved cipher process event
      ⟨moved.phased holds.1, moved.config.trans holds.2.1,
        moved.saving inverts holds.1 holds.2.2 may.1 may.2⟩)
  obtain ⟨loaded, keys, load⟩ := (saving.saved (by rw [ended]; rfl)).resolve_right (not_lt.mpr few)
  rw [same] at load
  rw [start_loads, startIdentity_loaded (by rw [load]), load]
  exact keys

theorem session_resumes_interrupted :
    let last := (start {} none fun _ => 7).after transparent interrupted
    last.client.keyStore.roomKey = some (List.replicate 32 7) ∧
      SameKeys
        ((start {} last.keystore fun _ => 9).after transparent [.main {}, .main {}]).client.keyStore
        last.client.keyStore :=
  ⟨by decide +kernel, session_resumes transparent_ideal.unlock_lock {} none (fun _ => 7)
    (by decide +kernel) (by decide +kernel) (by decide +kernel) (fun _ => 9) {} {}⟩

def Carries (cipher : Monocypher) (password : Bytes) (file : Option Bytes) (secret shared : Bytes) :
    Prop :=
  let outcome := (EncryptedKeyStoreFile.load cipher file password).run {}
  outcome.result = .ok true ∧ outcome.state.identitySecret = secret ∧
  outcome.state.identityPublic = shared

theorem Stores.carries {cipher : Monocypher} {password : Bytes} {file : Option Bytes}
    {store : PeerKeyStore} (stores : Stores cipher password file store) :
    Carries cipher password file store.identitySecret store.identityPublic := by
  obtain ⟨loaded, keys, load⟩ := stores
  rw [Carries, load]
  exact ⟨rfl, keys.secret, keys.shared⟩

def MainPhase.writes : MainPhase → Bool
  | .writeKeystore .. => true
  | _ => false

namespace Process

section Resumed

variable {cipher : Monocypher} {secret shared : Bytes} {process later : Process}
  {event : ProcessEvent}
  {effects : List ProcessEffect}

structure Resumed (cipher : Monocypher) (secret shared : Bytes) (process : Process) : Prop where
  sized : KeySizes process.client.keyStore
  fresh : process.main.identified = false → process.client.keyStore = {}
  own : process.main.identified → process.client.keyStore.identitySecret = secret ∧
    process.client.keyStore.identityPublic = shared
  kept : process.main.writes = false →
    Carries cipher process.config.keystorePassword process.keystore secret shared
  writing : ∀ fd sealed, process.main = .writeKeystore fd sealed →
    Carries cipher process.config.keystorePassword (some sealed) secret shared

theorem Resumed.of_same (resumed : process.Resumed cipher secret shared)
    (keys : later.client.keyStore = process.client.keyStore)
    (file : later.keystore = process.keystore) (config : later.config = process.config)
    (identified : later.main.identified = process.main.identified)
    (phase : later.main = process.main ∨ later.main.writes = false ∧ process.main.writes = false) :
    later.Resumed cipher secret shared := by
  obtain ⟨sized, fresh, own, kept, writing⟩ := resumed
  refine ⟨keys ▸ sized, ?_, ?_, ?_, fun fd sealed writes => ?_⟩
  · rw [keys, identified]
    exact fresh
  · rw [keys, identified]
    exact own
  · rw [file, config]
    rcases phase with same | ⟨-, unwritten⟩
    · rw [same]
      exact kept
    · exact fun _ => kept unwritten
  · rw [config]
    rcases phase with same | ⟨unwritten, -⟩
    · exact writing fd sealed (same ▸ writes)
    · simp [writes, MainPhase.writes] at unwritten

theorem Resumed.handled (resumed : process.Resumed cipher secret shared)
    (handled : process.Handled later.client effects) (file : later.keystore = process.keystore)
    (config : later.config = process.config) (identified : process.main.identified)
    (still : later.main.identified) (unwritten : process.main.writes = false)
    (phase : later.main.writes = false) : later.Resumed cipher secret shared := by
  obtain ⟨sized, fresh, own, kept, writing⟩ := resumed
  refine ⟨handled.sized sized, by simp [still], fun _ => ?_, fun _ => ?_,
    fun fd sealed writes => ?_⟩
  · obtain ⟨rfl, rfl⟩ := own identified
    exact ⟨congrArg (·.2.1) handled.identity, congrArg (·.2.2) handled.identity⟩
  · rw [file, config]
    exact kept unwritten
  · simp [writes, MainPhase.writes] at phase

theorem Moved.resumed
    (inverts : ∀ key nonce plain, cipher.aeadUnlock key nonce (cipher.aeadLock key nonce plain).1
      (cipher.aeadLock key nonce plain).2 = some plain)
    (moved : Moved cipher process event later effects) (phased : process.Phased)
    (resumed : process.Resumed cipher secret shared) (whole : process.Whole event) :
    later.Resumed cipher secret shared := by
  cases moved with
  | rests blocked => exact resumed
  | identifies phase reports =>
    have empty := resumed.fresh (by rw [phase]; rfl)
    have carried := resumed.kept (by rw [phase]; rfl)
    have loaded := startIdentity_loaded (empty.symm ▸ carried.1)
    refine ⟨(identified cipher process).sized resumed.sized, by simp [MainPhase.identified],
      fun _ => ?_,
      fun _ => carried, by simp⟩
    rw [loaded, empty]
    exact carried.2
  | starts phase handled | takesLine phase handled =>
    exact resumed.handled handled rfl rfl (by rw [phase]; rfl) rfl (by rw [phase]; rfl) rfl
  | throws phase handled =>
    rcases phase with phase | phase <;>
      exact resumed.handled handled rfl rfl (by rw [phase]; rfl) rfl (by rw [phase]; rfl) rfl
  | takesFrame phase handled =>
    obtain ⟨unjoined, started⟩ := phased.of_busy (by rw [phase]; rfl)
    have identified : process.main.identified := by
      cases phase : process.main <;> simp_all [MainPhase.starting, MainPhase.identified]
    have unwritten : process.main.writes = false := by
      cases phase : process.main <;> simp_all [MainPhase.joined, MainPhase.writes]
    exact resumed.handled handled rfl rfl identified identified unwritten unwritten
  | opensKeystore phase given identity serialized saltSize nonceSize =>
    have stores := (stores_sealed inverts resumed.sized identity serialized saltSize nonceSize
      process.config.keystorePassword).carries
    have own := resumed.own (by rw [phase]; rfl)
    rw [own.1, own.2] at stores
    refine ⟨resumed.sized, by simp [MainPhase.identified],
      fun _ => own, by simp [MainPhase.writes], ?_⟩
    intro fd sealed same
    obtain ⟨rfl, rfl⟩ := MainPhase.writeKeystore.inj same
    exact stores
  | writesKeystore phase reports =>
    have carried := resumed.writing _ _ phase
    refine ⟨resumed.sized, by simp [MainPhase.identified],
      fun _ => resumed.own (by rw [phase]; rfl),
      fun _ => ?_, by simp⟩
    simp only [Whole, phase, Option.isNone_iff_eq_none, decide_eq_true_eq] at whole
    simpa [whole] using carried
  | leavesLoop phase =>
    rcases phase with ⟨phase, -⟩ | phase <;>
      exact resumed.of_same rfl rfl rfl (by rw [phase]; rfl) (.inr ⟨rfl, by rw [phase]; rfl⟩)
  | shutsDown phase =>
    rcases phase with ⟨phase, rfl⟩ | ⟨phase, rfl⟩ <;>
      exact resumed.of_same rfl rfl rfl (by rw [phase]; rfl) (.inr ⟨rfl, by rw [phase]; rfl⟩)
  | closesLogger phase further =>
    split at further <;> subst further <;>
      exact resumed.of_same rfl rfl rfl (by rw [phase]; rfl) (.inr ⟨rfl, by rw [phase]; rfl⟩)
  | checksRunning phase | losesServer phase | claimsExit phase | comesLate phase
  | saysServerLost phase
  | receiverShutsDown phase | isInterrupted installed | isCutOff | opensUrandom may unused
  | closesUrandom stream spares =>
    exact resumed.of_same rfl rfl rfl rfl (.inl rfl)
  | runsUnlogged phase | opensLog phase | connects phase | getsNoSocket phase | isRefused phase
  | prompts phase | skipsLine phase | saysFarewell phase | forgets phase | stopsOutput phase
  | joins phase
  | savesNothing phase | closesSocket phase | hasNoSocket phase | clearsSocket phase
  | handlesFailure phase =>
    exact resumed.of_same rfl rfl rfl (by rw [phase]; rfl) (.inr ⟨rfl, by rw [phase]; rfl⟩)

theorem start_resumed {config : ClientConfig} {keystore : Option Bytes} (random : Nat → UInt8)
    (carries : Carries cipher config.keystorePassword keystore secret shared) :
    (start config keystore random).Resumed cipher secret shared :=
  ⟨keySizes_empty, fun _ => rfl, by simp [start, MainPhase.identified],
    fun _ => carries, by simp [start]⟩

end Resumed

end Process

structure Session where
  random : Nat → UInt8
  events : List ProcessEvent

section Sessions

variable (cipher : Monocypher) (config : ClientConfig)

-- The process at the end of a session, or where it was killed.
def Session.run (keystore : Option Bytes) (session : Session) : Process :=
  (start config keystore session.random).after cipher session.events

def Session.Whole (keystore : Option Bytes) (session : Session) : Prop :=
  Runs.Admissible (fun process event => process.Whole event) (step cipher)
    (start config keystore session.random) session.events

instance (keystore : Option Bytes) (session : Session) :
    Decidable (session.Whole cipher config keystore) :=
  inferInstanceAs (Decidable (Runs.Admissible _ _ _ _))

def leave (keystore : Option Bytes) (sessions : List Session) : Option Bytes :=
  sessions.foldl (fun keystore session => (session.run cipher config keystore).keystore) keystore

end Sessions

theorem Session.resumed {cipher : Monocypher}
    (inverts : ∀ key nonce plain, cipher.aeadUnlock key nonce (cipher.aeadLock key nonce plain).1
      (cipher.aeadLock key nonce plain).2 = some plain)
    {config : ClientConfig} {keystore : Option Bytes} {secret shared : Bytes}
    (carries : Carries cipher config.keystorePassword keystore secret shared) {session : Session}
    (whole : session.Whole cipher config keystore) :
    (session.run cipher config keystore).config = config ∧
      (session.run cipher config keystore).Resumed cipher secret shared := by
  have reachable : Runs.Reachable (· = start config keystore session.random)
      (fun process event => process.Whole event) (step cipher)
      (session.run cipher config keystore) :=
    .foldl (.start rfl) whole
  obtain ⟨-, same, resumed⟩ := reachable.invariant
    (fun process => process.Phased ∧ process.config = config ∧ process.Resumed cipher secret shared)
    (by rintro _ rfl; exact ⟨start_phased _ _ _, rfl, start_resumed _ carries⟩)
    (fun process event holds may =>
      have moved := moved cipher process event
      ⟨moved.phased holds.1, moved.config.trans holds.2.1,
        moved.resumed inverts holds.1 holds.2.2 may⟩)
  exact ⟨same, resumed⟩

/--
Once a key pair has been saved, every later session has it, whatever the server sends and however
the sessions before it ended, as long as none was stopped in the middle of writing the file.
-/
theorem identity_survives {cipher : Monocypher}
    (inverts : ∀ key nonce plain, cipher.aeadUnlock key nonce (cipher.aeadLock key nonce plain).1
      (cipher.aeadLock key nonce plain).2 = some plain)
    (config : ClientConfig) {keystore : Option Bytes} {secret shared : Bytes}
    (carries : Carries cipher config.keystorePassword keystore secret shared)
    (sessions : List Session)
    (whole : Runs.Admissible (fun keystore session => session.Whole cipher config keystore ∧
        (session.run cipher config keystore).main.writes = false)
      (fun keystore session => (session.run cipher config keystore).keystore) keystore sessions)
    (last : Session)
    (lastWhole : last.Whole cipher config (leave cipher config keystore sessions)) :
    let process := last.run cipher config (leave cipher config keystore sessions)
    process.main.identified →
      process.client.keyStore.identitySecret = secret ∧
      process.client.keyStore.identityPublic = shared := by
  induction sessions generalizing keystore with
  | nil => exact (Session.resumed inverts carries lastWhole).2.own
  | cons session sessions ih =>
    obtain ⟨same, resumed⟩ := Session.resumed inverts carries whole.1.1
    have next := resumed.kept whole.1.2
    rw [same] at next
    exact ih next whole.2 lastWhole

theorem identity_survives_interrupted :
    let first : Session := ⟨fun _ => 7, interrupted⟩
    let later : Session := ⟨fun _ => 9, interrupted⟩
    let file := (first.run transparent {} none).keystore
    (later.run transparent {} (leave transparent {} file [later])).client.keyStore.identitySecret =
      List.replicate 32 7 := by
  intro first later file
  have carries : Carries transparent ({} : ClientConfig).keystorePassword file (List.replicate 32 7)
      (List.replicate 32 7) := ⟨by decide +kernel, by decide +kernel⟩
  exact (identity_survives transparent_ideal.unlock_lock {} carries [later]
    (by decide +kernel) later
    (by decide +kernel) (by decide +kernel)).1

end ModbusChat.Client
