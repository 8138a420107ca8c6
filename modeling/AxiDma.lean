import AxiDma.Firmware.Board
import AxiDma.Firmware.DmaTests
import AxiDma.Firmware.UartReadWrite
import AxiDma.Golden.Engines
import AxiDma.Golden.Irq
import AxiDma.Golden.Objects
import AxiDma.Golden.Ring
import AxiDma.Golden.RingCalls
import AxiDma.Golden.RunGolden
import AxiDma.Host.DryRun
import AxiDma.Host.HostRunner
import AxiDma.Host.ParseStimulus
import AxiDma.Host.SerialHost
import AxiDma.Host.Stimulus
import AxiDma.Host.Struct
import AxiDma.Host.Verdict
import AxiDma.Lib.BoundedQueue
import AxiDma.Lib.ByteStream
import AxiDma.Lib.CircularBuffer
import AxiDma.Lib.Crc
import AxiDma.Lib.Device
import AxiDma.Lib.Hex
import AxiDma.Lib.Latch
import AxiDma.Lib.Moves
import AxiDma.Lib.Overlay
import AxiDma.Lib.Program
import AxiDma.Lib.Raise
import AxiDma.Lib.RingIndex
import AxiDma.Lib.Run
import AxiDma.Rtl.AxiMaster
import AxiDma.Rtl.Csr
import AxiDma.Rtl.CsrRing
import AxiDma.Rtl.DataMover
import AxiDma.Rtl.DataPath
import AxiDma.Rtl.DescriptorFetcher
import AxiDma.Rtl.DmaPkg
import AxiDma.Rtl.Engines
import AxiDma.Rtl.Fifo
import AxiDma.Rtl.Irq
import AxiDma.Rtl.MemAccessCtrl
import AxiDma.Rtl.MovementTop
import AxiDma.Rtl.Packed
import AxiDma.Rtl.RingManager
import AxiDma.Rtl.SramController
import AxiDma.Rtl.SysMem
import AxiDma.Rtl.VivadoConfig
import AxiDma.Verified.Accepts
import AxiDma.Verified.AxiBursts
import AxiDma.Verified.AxiLitePort
import AxiDma.Verified.AxiLiteSlave
import AxiDma.Verified.BoardMemory
import AxiDma.Verified.BoundedRing
import AxiDma.Verified.Chain
import AxiDma.Verified.ChannelStability
import AxiDma.Verified.ClosedCore
import AxiDma.Verified.Commands
import AxiDma.Verified.Completion
import AxiDma.Verified.Conversation
import AxiDma.Verified.Copy
import AxiDma.Verified.CoreAtRest
import AxiDma.Verified.CoreCopies
import AxiDma.Verified.CoreDrains
import AxiDma.Verified.CoreOnFpga
import AxiDma.Verified.CrcDetection
import AxiDma.Verified.CrcRange
import AxiDma.Verified.CsrCore
import AxiDma.Verified.CsrFields
import AxiDma.Verified.CsrModel
import AxiDma.Verified.CsrTraffic
import AxiDma.Verified.CtrlReadback
import AxiDma.Verified.Decoding
import AxiDma.Verified.Dormant
import AxiDma.Verified.ErrorHalt
import AxiDma.Verified.ExactlyOnce
import AxiDma.Verified.FetchedWords
import AxiDma.Verified.FetcherWrites
import AxiDma.Verified.FifoHistory
import AxiDma.Verified.FifoQueue
import AxiDma.Verified.FirmwareModes
import AxiDma.Verified.Fpga
import AxiDma.Verified.Framing
import AxiDma.Verified.GoldenAgrees
import AxiDma.Verified.GoldenMove
import AxiDma.Verified.GoldenOnCore
import AxiDma.Verified.GoldenRing
import AxiDma.Verified.GoldenRun
import AxiDma.Verified.GoldenSetup
import AxiDma.Verified.HostVerdict
import AxiDma.Verified.InFlight
import AxiDma.Verified.InitOwnership
import AxiDma.Verified.InstructionPairs
import AxiDma.Verified.IrqCauses
import AxiDma.Verified.IrqPaths
import AxiDma.Verified.MemoryCopy
import AxiDma.Verified.MidRoom
import AxiDma.Verified.Ownership
import AxiDma.Verified.Panel
import AxiDma.Verified.PanelCommands
import AxiDma.Verified.Pipeline
import AxiDma.Verified.PortTraffic
import AxiDma.Verified.PostedQueue
import AxiDma.Verified.Prediction
import AxiDma.Verified.Preload
import AxiDma.Verified.Progress
import AxiDma.Verified.Provenance
import AxiDma.Verified.Replay
import AxiDma.Verified.ReplayCopy
import AxiDma.Verified.Replies
import AxiDma.Verified.ResetAtRest
import AxiDma.Verified.ResetOrder
import AxiDma.Verified.RingPointers
import AxiDma.Verified.RingRun
import AxiDma.Verified.RunConfig
import AxiDma.Verified.RunDma
import AxiDma.Verified.SelfCheck
import AxiDma.Verified.Sequential
import AxiDma.Verified.Service
import AxiDma.Verified.Session
import AxiDma.Verified.SharedRing
import AxiDma.Verified.Shim
import AxiDma.Verified.SoftReset
import AxiDma.Verified.SramBounds
import AxiDma.Verified.Stages
import AxiDma.Verified.StartWait
import AxiDma.Verified.StatusTest
import AxiDma.Verified.StimReplay
import AxiDma.Verified.SysMemFsm
import AxiDma.Verified.TailPastRing
import AxiDma.Verified.Transactions
import AxiDma.Verified.Transfer
import AxiDma.Verified.WriteResponses
