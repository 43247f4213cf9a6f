import Relics.BitFields
import Relics.BootPaging
import Relics.ByteMemory
import Relics.ConsoleCursor
import Relics.ConsoleScreen
import Relics.ConsoleSource
import Relics.ConsoleStores
import Relics.ConsoleTerminal
import Relics.ConsoleWindow
import Relics.CountedLoop
import Relics.CpuFeatures
import Relics.CpuReport
import Relics.E820Agreement
import Relics.E820Bounds
import Relics.E820Map
import Relics.E820Report
import Relics.E820Setup
import Relics.ExtentTiling
import Relics.FirstDifference
import Relics.GdtDescriptors
import Relics.GdtSource
import Relics.InterruptAtomicity
import Relics.InterruptDispatch
import Relics.InterruptFaults
import Relics.InterruptFrame
import Relics.InterruptGates
import Relics.InterruptLines
import Relics.InterruptMachine
import Relics.InterruptSource
import Relics.KernelMemory
import Relics.KeyboardKeys
import Relics.KeyboardMailbox
import Relics.KeyboardSource
import Relics.KeyboardTyping
import Relics.LabelledRun
import Relics.LinkedListRuns
import Relics.LinkedListSource
import Relics.LinkedRing
import Relics.LogReading
import Relics.MachineWord
import Relics.MallocBlocks
import Relics.MallocClients
import Relics.MallocCoalescing
import Relics.MallocExhaustion
import Relics.MallocFragments
import Relics.MallocFrame
import Relics.MallocHistory
import Relics.MallocInit
import Relics.MallocOperations
import Relics.MallocPartition
import Relics.MallocRefinement
import Relics.MallocRequest
import Relics.MallocRestore
import Relics.MallocSource
import Relics.MallocSteps
import Relics.MallocStressTest
import Relics.MathPowers
import Relics.PagingWalk
import Relics.PanicText
import Relics.PicMasks
import Relics.PicSource
import Relics.PitChannel
import Relics.PitClock
import Relics.PitSleep
import Relics.PmemReport
import Relics.PositionalNumeral
import Relics.PrintBases
import Relics.PrintDecimal
import Relics.PrintDigits
import Relics.PrintFlags
import Relics.PrintNumbers
import Relics.PrintPieces
import Relics.PrintReading
import Relics.PrintSource
import Relics.PrintTerminator
import Relics.PrintTimestamps
import Relics.SelectedWords
import Relics.ShellBuiltins
import Relics.ShellKeyboard
import Relics.ShellLines
import Relics.ShellScreen
import Relics.ShellSessions
import Relics.ShellSource
import Relics.ShellTyping
import Relics.SquareMultiply
import Relics.StringBuffers
import Relics.StringCompare
import Relics.StringCopy
import Relics.StringOrder
import Relics.StringSource
import Relics.TerminatedString
import Relics.Transducer
import Relics.WordStack
