import Mathlib.Data.List.Sort
import ModbusChat.Shared.OrderedSet
import ModbusChat.Shared.Table
import ModbusChat.Wire.Protocol

set_option autoImplicit false

namespace ModbusChat.Server

open BigEndian Effects Wire

abbrev Fd := Int32

structure ClientRecord where
  fd : Fd := -1
  id : UInt32 := 0
  nickname : Bytes := []
  registered : Bool := false
  deriving DecidableEq, Repr

structure ClientRegistry where
  clientsByFd : Table Fd ClientRecord := ∅
  fdsById : Table UInt32 Fd := ∅
  idsByNickname : Table Bytes UInt32 := ∅

namespace ClientRegistry

def add (registry : ClientRegistry) (fd : Fd) (id : UInt32) : ClientRecord × ClientRegistry :=
  let record : ClientRecord := { fd, id }
  (record,
    { registry with
      clientsByFd := registry.clientsByFd.insert fd record
      fdsById := registry.fdsById.insert id fd })

-- Erases the index entry of a nickname, which only a non-empty nickname has.
def forgetNickname (registry : ClientRegistry) (nickname : Bytes) : ClientRegistry :=
  if nickname = [] then registry
  else { registry with idsByNickname := registry.idsByNickname.erase nickname }

def remove (registry : ClientRegistry) (fd : Fd) : Option ClientRecord × ClientRegistry :=
  match registry.clientsByFd.lookup fd with
  | none => (none, registry)
  | some record =>
      let registry := registry.forgetNickname record.nickname
      (some record,
        { registry with
          fdsById := registry.fdsById.erase record.id
          clientsByFd := registry.clientsByFd.erase fd })

def findByFd (registry : ClientRegistry) (fd : Fd) : Option ClientRecord :=
  registry.clientsByFd.lookup fd

def fdById (registry : ClientRegistry) (id : UInt32) : Option Fd := registry.fdsById.lookup id

def idByNickname (registry : ClientRegistry) (nickname : Bytes) : Option UInt32 :=
  registry.idsByNickname.lookup nickname

def nicknameTakenByOther (registry : ClientRegistry) (nickname : Bytes) (id : UInt32) : Bool :=
  match registry.idsByNickname.lookup nickname with
  | none => false
  | some owner => owner != id

def setNickname (registry : ClientRegistry) (fd : Fd) (nickname : Bytes) : ClientRegistry :=
  match registry.findByFd fd with
  | none => registry
  | some record =>
      let registry := registry.forgetNickname record.nickname
      { registry with
        clientsByFd := registry.clientsByFd.insert fd { record with nickname, registered := true }
        idsByNickname := registry.idsByNickname.insert nickname record.id }

def records (registry : ClientRegistry) : List ClientRecord := registry.clientsByFd.values

def allFds (registry : ClientRegistry) : List Fd := registry.clientsByFd.keys

def collectUsers (registry : ClientRegistry) : List UserInfo :=
  (registry.records.map fun client =>
    ({ id := client.id, nickname := client.nickname } : UserInfo)).insertionSort
    fun a b => a.id ≤ b.id

def resolveRecipient (registry : ClientRegistry) (chat : ChatPayload) :
    Except Failure (Option UInt32) :=
  if chat.recipientTag = kRecipientById then
    if chat.recipientData.length < kUint32Size then return none
    else do
      let id ← inBounds (readU32Be chat.recipientData)
      return if (registry.fdById id).isSome then some id else none
  else if chat.recipientTag = kRecipientByNickname then do
    let nickname ← decodeString chat.recipientData
    return registry.idByNickname nickname
  else return none

def recipientLabel (chat : ChatPayload) : Except Failure Bytes :=
  if chat.recipientTag = kRecipientBroadcast then return kBroadcastRecipient
  else if chat.recipientTag = kRecipientById ∧ kUint32Size ≤ chat.recipientData.length then do
    return toDecimal (← inBounds (readU32Be chat.recipientData))
  else if chat.recipientTag = kRecipientByNickname then decodeString chat.recipientData
  else return ascii "?"

end ClientRegistry

end ModbusChat.Server
