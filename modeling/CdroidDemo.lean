import CdroidDemo.HeaderResync
import CdroidDemo.FramedReceiver
import CdroidDemo.CrcChecksum
import CdroidDemo.PacketAssembly
import CdroidDemo.McuPackets
import CdroidDemo.TuyaPackets
import CdroidDemo.PacketBuffer
import CdroidDemo.UartReceiver
import CdroidDemo.ReceiverFraming
import CdroidDemo.History
import CdroidDemo.ReceiverRepeats
import CdroidDemo.LinearOwnership
import CdroidDemo.BufferPool
import CdroidDemo.SerialClient
import CdroidDemo.ConnMgr
import CdroidDemo.BufferOwnership
import CdroidDemo.FifoQueue
import CdroidDemo.UartTransmission
import CdroidDemo.ManagerRuns
import CdroidDemo.CommandFrame
import CdroidDemo.CommandDelivery
import CdroidDemo.HandlerRegistry
import CdroidDemo.TaskConservation
import CdroidDemo.TaskCancellation
import CdroidDemo.PageWindows
import CdroidDemo.JsonText
import CdroidDemo.JsonReader
import CdroidDemo.JsonWriter
import CdroidDemo.JsonWeight
import CdroidDemo.JsonFunc
import CdroidDemo.JsonPaste
import CdroidDemo.ModeEncoding
import CdroidDemo.ModeRestart
import CdroidDemo.ModeSaves
import CdroidDemo.BuiltinModes
import CdroidDemo.CheckCodes
import CdroidDemo.ClientConnection
import CdroidDemo.DescriptorOwnership
import CdroidDemo.ServerStreams
import CdroidDemo.FormSaves
import CdroidDemo.CommFunc
import CdroidDemo.PrefixBudget
import CdroidDemo.SelfDelimiting
import CdroidDemo.TextHelpers
import CdroidDemo.TextReplacement
import CdroidDemo.TextWords
import CdroidDemo.VersionOrder
import CdroidDemo.ChunkedReads
import CdroidDemo.DistinctKeys
import CdroidDemo.FileLoading
import CdroidDemo.IdleClients
import CdroidDemo.JsonEquality
import CdroidDemo.ModeLoading
import CdroidDemo.PeerClose
import CdroidDemo.BoundedText
import CdroidDemo.SeekBar
import CdroidDemo.SeekBarAngles
import CdroidDemo.SeekBarRuns
import CdroidDemo.SeparatedFields
import CdroidDemo.SerialWrites
import CdroidDemo.StringFields
import CdroidDemo.TextTermination
import CdroidDemo.SpacedEvents
import CdroidDemo.StatusWatch
import CdroidDemo.StoreRestarts
import CdroidDemo.ReceiverRecovery
import CdroidDemo.FairRounds
import CdroidDemo.PacedQueue
import CdroidDemo.PacketDispatch
import CdroidDemo.PoolPeak
import CdroidDemo.QueueDrain
import CdroidDemo.TaskDraining
import CdroidDemo.CommandRefresh
import CdroidDemo.SeekBarDrags
import CdroidDemo.SerialReads
import CdroidDemo.PolledManager
import CdroidDemo.ConnectRetries
import CdroidDemo.SerialSettings
import CdroidDemo.BroadcastDelivery
import CdroidDemo.TimeText
import CdroidDemo.TimeTicker
import CdroidDemo.SizedMessages
import CdroidDemo.SocketBridge
import CdroidDemo.UiSessions
