import RetroCpu.Lib.StateFn
import RetroCpu.Lib.WordBytes
import RetroCpu.Wdc65816.Tables
import RetroCpu.Wdc65816.Core
import RetroCpu.Wdc65816.SaveState
import RetroCpu.SystemBus
import RetroCpu.Wdc65816.Footprint
import RetroCpu.Wdc65816.Course
import RetroCpu.Wdc65816.ExecCourse
import RetroCpu.Wdc65816.Spends
import RetroCpu.Lib.Run
import RetroCpu.Wdc65816.Reach
import RetroCpu.Wdc65816.Coherence
import RetroCpu.Wdc65816.IndexWidth
import RetroCpu.Wdc65816.StackPage
import RetroCpu.Wdc65816.Confinement
import RetroCpu.EventQueue
import RetroCpu.RunLoop
import RetroCpu.Wdc65816.Progress
import RetroCpu.Lib.Latch
import RetroCpu.Lib.Nested
import RetroCpu.Lib.RingStack
import RetroCpu.Wdc65816.Stack
import RetroCpu.Wdc65816.InterruptReturn
import RetroCpu.Wdc65816.PushPull
import RetroCpu.Wdc65816.NativeStack
import RetroCpu.Wdc65816.OldStack
import RetroCpu.Cartridge
import RetroCpu.Nes.Mapper
import RetroCpu.Nes.Ppu
import RetroCpu.Nes.Beam
import RetroCpu.Nes.Frame
import RetroCpu.Nes.DataPort
import RetroCpu.Nes.Console
import RetroCpu.Nes.Nrom
import RetroCpu.Nes.Cells
import RetroCpu.Nes.Background
import RetroCpu.Nes.Scanline
import RetroCpu.CycleProcessing
import RetroCpu.Wdc65816.Mnemonics
import RetroCpu.Wdc65816.Assembler
import RetroCpu.Wdc65816.Operand
import RetroCpu.Wdc65816.AssemblyLine
import RetroCpu.Nes.CatchUp
import RetroCpu.Nes.ScrollReload
import RetroCpu.Nes.Events
import RetroCpu.Nes.Framebuffer
import RetroCpu.Nes.SpriteLine
import RetroCpu.Lib.Outcome
import RetroCpu.Nes.MainBus
import RetroCpu.Nes.OpenBus
import RetroCpu.Nes.Clocks
import RetroCpu.C256.Bus
import RetroCpu.C256.Decoding
import RetroCpu.DebugInterface.Requests
import RetroCpu.DebugInterface.Program
import RetroCpu.DebugInterface.Pause
import RetroCpu.DebugInterface.Deadlock
import RetroCpu.EventDelivery
import RetroCpu.HexLoader.Loader
import RetroCpu.HexLoader.Records
import RetroCpu.Wdc65816.Arithmetic
import RetroCpu.HexLoader.Scan
import RetroCpu.HexLoader.Format
import RetroCpu.HexLoader.Safety
import RetroCpu.HexLoader.Truncated
import RetroCpu.Wdc65816.HiddenByte
import RetroCpu.Wdc65816.Trace
import RetroCpu.Wdc65816.Fetch
import RetroCpu.Wdc65816.ZeroPage
import RetroCpu.Wdc65816.Disassembler
import RetroCpu.Wdc65816.Disassembly
import RetroCpu.C256.ReadLines
import RetroCpu.Nes.ReadLines
import RetroCpu.Disassembly
import RetroCpu.Nes.VerticalScroll
import RetroCpu.Wdc65816.Compare
import RetroCpu.Wdc65816.ModeSwitch
import RetroCpu.Wdc65816.InterruptStatus
import RetroCpu.Wdc65816.StatusRegister
import RetroCpu.Wdc65816.InterruptMask
import RetroCpu.Wdc65816.IllegalImmediate
import RetroCpu.Lib.Bcd
import RetroCpu.Wdc65816.Decimal
import RetroCpu.Lib.Copy
import RetroCpu.Wdc65816.BlockMove
import RetroCpu.Wdc65816.BlockCopy
import RetroCpu.C256.MathCopro
import RetroCpu.Jit.Emitter
import RetroCpu.Lib.X86
import RetroCpu.Jit.OpsList
import RetroCpu.Mapping
import RetroCpu.Nes.SpriteRows
import RetroCpu.Wdc65816.Directives
import RetroCpu.Wdc65816.Literals
import RetroCpu.DebugInterface.Session
import RetroCpu.DebugInterface.SingleStep
import RetroCpu.Lib.Coupled
import RetroCpu.Wdc65816.Alike
import RetroCpu.Wdc65816.Lockstep
import RetroCpu.Wdc65816.LockstepOps
import RetroCpu.Wdc65816.Bisimulation
import RetroCpu.Layout
import RetroCpu.Stepping
import RetroCpu.Wdc65816.Compatible
import RetroCpu.Wdc65816.SaveRuns
import RetroCpu.Nes.Nmi
import RetroCpu.Nes.DarkFrame
import RetroCpu.Nes.Fetching
import RetroCpu.Nes.NmiLoop
import RetroCpu.Nes.NmiWait
import RetroCpu.Nes.NmiDelivery
import RetroCpu.Nes.Joypads
