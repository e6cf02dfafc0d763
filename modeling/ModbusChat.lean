import ModbusChat.Client.Descriptors
import ModbusChat.Client.Sessions
import ModbusChat.Common.Config
import ModbusChat.Common.Flush
import ModbusChat.Common.QueuedCommandExecutor
import ModbusChat.Server.Announcements
import ModbusChat.Server.BadMessages
import ModbusChat.Server.Bans
import ModbusChat.Server.FrameBounds
import ModbusChat.Server.Stopping
import ModbusChat.System.Audience
import ModbusChat.System.Authorship
import ModbusChat.System.Blocking
import ModbusChat.System.Delivery
import ModbusChat.System.Forgetting
import ModbusChat.System.KeyBinding
import ModbusChat.System.Nicknames
import ModbusChat.System.OutgoingStream
import ModbusChat.System.RoomKey
import ModbusChat.System.RoomSupply
import ModbusChat.System.Settling
import ModbusChat.System.TypedLines
import ModbusChat.Wire.Format
