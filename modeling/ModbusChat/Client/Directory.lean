import ModbusChat.Client.Refinement

set_option autoImplicit false

namespace ModbusChat.Client

open BigEndian Effects Wire

abbrev Directory := Bytes → Option UInt32

def Directory.learn (directory : Directory) (user : UserInfo) : Directory :=
  if user.nickname = [] then directory else Function.update directory user.nickname (some user.id)

def Directory.forget (directory : Directory) (user : UserInfo) : Directory :=
  if user.nickname = [] then directory else Function.update directory user.nickname none

def Directory.hear (directory : Directory) (packet : Packet) : Directory :=
  match decodePayload packet.payload packet.type with
  | .ok (.userJoined id nickname) => directory.learn { id, nickname }
  | .ok (.userLeft id nickname) => directory.forget { id, nickname }
  | .ok (.usersList users) => users.foldl Directory.learn directory
  | _ => directory

def ClientViewModel.directory (client : ClientViewModel) : Directory := client.idByNickname.lookup

theorem directory_learnNickname (client : ClientViewModel) (user : UserInfo) :
    (client.learnNickname user).directory = client.directory.learn user := by
  unfold ClientViewModel.directory ClientViewModel.learnNickname Directory.learn
  split_ifs
  · rfl
  · funext nickname
    rw [Table.lookup_insert_eq, Function.update_apply]

theorem directory_forgetNickname (client : ClientViewModel) (user : UserInfo) :
    (client.forgetNickname user).directory = client.directory.forget user := by
  unfold ClientViewModel.directory ClientViewModel.forgetNickname Directory.forget
  split_ifs
  · rfl
  · funext nickname
    rw [Table.lookup_erase_eq, Function.update_apply]

theorem directory_foldl (users : List UserInfo) (client : ClientViewModel) :
    (users.foldl ClientViewModel.learnNickname client).directory =
      users.foldl Directory.learn client.directory := by
  induction users generalizing client with
  | nil => rfl
  | cons user users ih => rw [List.foldl_cons, List.foldl_cons, ih, directory_learnNickname]

section Keeps

variable {α β : Type} {cipher : Monocypher} {deeds : List Deed} {client after : ClientViewModel}

theorem Does.directory {deed : Deed} {output : List ClientEffect}
    (does : Does cipher client deed output after) (other : deed ≠ .learn) :
    after.directory = client.directory := by
  cases does with
  | quiet quiet => cases quiet <;> rfl
  | learn => exact absurd rfl other
  | _ => rfl

theorem Conducted.directory {outcome : Outcome ClientViewModel ClientEffect Failure α}
    (conducted : Conducted cipher deeds client outcome) (other : .learn ∉ deeds) :
    outcome.state.directory = client.directory := by
  refine conducted.relates (chains_view ClientViewModel.directory) fun member does =>
    does.directory ?_
  rintro rfl
  exact other (by simpa using member)

theorem command_directory (cipher : Monocypher) (command : InputCommand)
    (client : ClientViewModel) :
    ((handleInputCommand cipher command).run client).state.directory = client.directory := by
  refine Conducted.directory ((handleInputCommand_speaks command).conducts client) fun member => ?_
  rcases mem_commandDeeds member with same | ⟨same, -⟩ | ⟨peerId, same, -⟩ | same <;> cases same

theorem directory_modify {update : ClientViewModel → ClientViewModel} {next : ClientM α}
    (speaks : Speaks cipher deeds next) (other : .learn ∉ deeds) (client : ClientViewModel) :
    ((Action.modify update >>= fun _ => next).run client).state.directory =
      (update client).directory :=
  Conducted.directory (speaks.conducts (update client)) other

end Keeps

theorem handleIncoming_directory (cipher : Monocypher) (client : ClientViewModel) {packet : Packet}
    {payload : AppPayload} (decoded : decodePayload packet.payload packet.type = .ok payload) :
    ((handleIncoming cipher { type := packet.type, payload }).run client).state.directory =
      client.directory.hear packet := by
  have carried := decodePayload_carries decoded
  obtain ⟨type, bytes⟩ := packet
  simp only [Directory.hear, decoded]
  cases type
  case userJoined =>
    cases payload with
    | userJoined id nickname =>
      exact (directory_modify (@welcome_speaks cipher _ (by simp) id) (by simp) client).trans
        (directory_learnNickname client { id, nickname })
    | _ => exact carried.elim
  case userLeft =>
    cases payload with
    | userLeft id nickname =>
      exact (directory_modify (@Idle.speaks _ cipher [] _ (idle_present (by simp))) (by simp)
        client).trans
        (directory_forgetNickname client { id, nickname })
    | _ => exact carried.elim
  case usersList =>
    cases payload with
    | usersList users =>
      exact (directory_modify (@Idle.speaks _ cipher [] _ (idle_present (by simp))) (by simp)
        client).trans
        (directory_foldl users client)
    | _ => exact carried.elim
  all_goals
    refine (Conducted.directory (handleIncoming_conducts _ client) ?_).trans ?_
    · intro member
      have kinds := mem_messageDeeds member
      simp at kinds
    · cases payload <;> first | exact carried.elim | rfl

theorem receiveNext_directory (cipher : Monocypher) (client : ClientViewModel) (packet : Packet) :
    ((receiveNext cipher (some packet.frame)).run client).state.directory =
      client.directory.hear packet := by
  have handled (failure : Failure) : (catchClause (reportError "Decode failed") failure).Keeps := by
    unfold catchClause
    split
    · exact Action.keeps_lift _
    · exact (Action.keeps_emit _).bind fun _ => Action.keeps_emit _
  rw [receiveNext_some, catching, Action.state_tryCatch handled, Packet.frame,
    decodeAppMessage_frame]
  cases decoded : decodePayload packet.payload packet.type with
  | error failure =>
    have same : client.directory.hear packet = client.directory := by
      simp only [Directory.hear, decoded]
    exact same.symm
  | ok payload => exact handleIncoming_directory cipher client decoded

end ModbusChat.Client
