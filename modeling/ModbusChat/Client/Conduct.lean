import ModbusChat.Client.Deeds

set_option autoImplicit false

namespace ModbusChat.Client

open BigEndian Effects PeerKeyStore Wire

def ClientEffect.Ordinary (effect : ClientEffect) : Prop :=
  effect ≠ .display .serverDisconnected ∧ effect ≠ .shutdownSocket ∧ effect ≠ .closeStdin

-- What no line and no frame does to a client.
structure Mild (client : ClientViewModel) (output : List ClientEffect) (after : ClientViewModel) :
    Prop where
  ordinary : ∀ effect ∈ output, effect.Ordinary
  announced : after.exitAnnounced = client.exitAnnounced
  online : after.online = client.online
  stays : client.running = false → after.running = false
  sized : KeySizes client.keyStore → KeySizes after.keyStore

theorem chains_mild : Chains Mild where
  refl _ := ⟨by simp, rfl, rfl, id, id⟩
  trans first second :=
    { ordinary := fun effect member =>
        (List.mem_append.mp member).elim (first.ordinary effect) (second.ordinary effect)
      announced := second.announced.trans first.announced
      online := second.online.trans first.online
      stays := fun stopped => second.stays (first.stays stopped)
      sized := fun sizes => second.sized (first.sized sizes) }

section Mild

variable {α : Type} {cipher : Monocypher} {deeds : List Deed} {client after : ClientViewModel}
  {output : List ClientEffect}

theorem Quiet.ordinary (quiet : Quiet client output after) :
    ∀ effect ∈ output, effect.Ordinary := by
  cases quiet with
  | @report effect plain =>
    intro other member
    obtain rfl := List.mem_singleton.mp member
    refine ⟨?_, ?_, ?_⟩ <;> rintro rfl <;> cases plain
  | draw size => simp

theorem Does.mild {deed : Deed} (does : Does cipher client deed output after)
    (unclosed : deed ≠ .close) :
    Mild client output after := by
  cases does with
  | quiet quiet =>
    have ordinary := quiet.ordinary
    cases quiet <;> exact ⟨ordinary, rfl, rfl, id, id⟩
  | announce | close => exact absurd rfl unclosed
  | keys => exact ⟨by simp, rfl, rfl, id, maintains_operation _ client.keyStore⟩
  | identity => exact ⟨by simp, rfl, rfl, id, maintains_operation _ client.keyStore⟩
  | stop => exact ⟨by simp, rfl, rfl, fun _ => rfl, id⟩
  | note | assign | learn => exact ⟨by simp, rfl, rfl, id, id⟩
  | _ => exact ⟨by simp [ClientEffect.Ordinary], rfl, rfl, id, id⟩

theorem Conducted.mild {outcome : Outcome ClientViewModel ClientEffect Failure α}
    (conducted : Conducted cipher deeds client outcome) (unclosed : .close ∉ deeds) :
    Mild client outcome.output outcome.state := by
  refine conducted.relates chains_mild fun member does => does.mild ?_
  rintro rfl
  exact unclosed (by simpa using member)

end Mild

section Handlers

variable {cipher : Monocypher}

theorem handleLine_conducted (line : Bytes) (client : ClientViewModel) :
    ∃ command : InputCommand, Conducted cipher command.deeds client
      (Action.run
        (do handleInputCommand cipher (← Action.lift (parseInputLine line (← Action.get).myId)))
        client) := by
  have bounded := parseInputLine_bounded line client.myId
  simp only [Action.run_bind, Action.run_get, Outcome.andThen_ok, Outcome.before_nil,
    Action.run_lift]
  cases parsed : parseInputLine line client.myId with
  | error failure =>
    refine ⟨.invalid, Outcome.Takes.early ⟨.done, fun _ same caught => bounded ?_⟩⟩
    rw [parsed, Except.error.inj same, caught]
  | ok command => exact ⟨command, (handleInputCommand_speaks command).conducts client⟩

theorem loaded_cases {loaded : Except Failure Bool} (bounded : Bounded loaded) :
    loaded = .ok true ∨ NotLoaded loaded := by
  cases loaded with
  | ok found =>
    cases found with
    | true => exact .inl rfl
    | false => exact .inr rfl
  | error failure =>
    cases failure with
    | outOfBounds => exact absurd rfl bounded
    | _ => exact .inr rfl

theorem startIdentity_returns (file : Option Bytes) (password : Bytes) (client : ClientViewModel) :
    ((startIdentity cipher file password).run client).result = .ok () := by
  simp only [startIdentity, Action.run_bind, Action.run_get, Action.run_modify, Outcome.andThen_ok,
    Outcome.before_nil]
  rcases loaded_cases (@load_bounded cipher file password client.keyStore) with found | missing
  · rw [found]
    rfl
  · obtain ⟨output, run⟩ := @loadOrCreateIdentity_run cipher _ missing
      { client with
        keyStore := ((EncryptedKeyStoreFile.load cipher file password).run client.keyStore).state }
    rw [run]

end Handlers

end ModbusChat.Client
