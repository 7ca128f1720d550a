import Cpm.Main
import Cpm.Instruction.Tables
import Cpm.Sequencer
import Cpm.Checked.Cpu
import Cpm.Proofs.Decoding
import Cpm.Proofs.ControlFlow
import Cpm.Proofs.HostMaps
import Cpm.Proofs.PortCalls
import Cpm.Proofs.Step
import Cpm.Proofs.Disassembly
import Cpm.Proofs.Stopping
import Cpm.Proofs.Rows
import Cpm.Proofs.Modes
import Cpm.Proofs.IndexForms
import Cpm.Proofs.IndexSteps
import Cpm.Proofs.IndexMirror
import Cpm.Proofs.SystemCalls
import Cpm.Proofs.Sectors
import Cpm.Proofs.DiskStore
import Cpm.Proofs.AtomicCalls
import Cpm.Proofs.InstalledSystem
import Cpm.Proofs.Booting
import Cpm.Proofs.Latches
import Cpm.Proofs.Z80Registers
import Cpm.Proofs.HostWrites
import Cpm.Proofs.Shutdown
import Cpm.Proofs.WriteBack
import Cpm.Proofs.RefreshLaw
import Cpm.Proofs.Loops
import Cpm.Proofs.PortContract
import Cpm.Proofs.Termination
import Cpm.Proofs.CheckedOperations
import Cpm.Proofs.Faults
import Cpm.Proofs.Stack
import Cpm.Proofs.ConsoleRequests
import Cpm.Proofs.ConsoleMaps
import Cpm.Proofs.ColdBoot
import Cpm.Proofs.HostInput
import Cpm.Proofs.AssemblyText
import Cpm.Proofs.InstructionText
import Cpm.Proofs.Encodings
import Cpm.Proofs.TextAndBytes
import Cpm.Proofs.FlagReadings
import Cpm.Proofs.BlockForms
import Cpm.Proofs.BlockCopy
import Cpm.Proofs.BlockSearch
import Cpm.Proofs.Repetition
import Cpm.Proofs.AccumulatorArithmetic
import Cpm.Proofs.CarryChains
import Cpm.Proofs.WordArithmetic
import Cpm.Proofs.DecimalArithmetic
import Cpm.Proofs.ByteChanges
import Cpm.Proofs.OperandChanges
import Cpm.Proofs.ConditionalTransfers
import Cpm.Proofs.QuietSteps
import Cpm.Proofs.FlagFrame
import Cpm.Proofs.InvalidOpcodes
import Cpm.Proofs.LongShifts
import Cpm.Proofs.LineEditing
import Cpm.Proofs.MemoryFrame
import Cpm.Proofs.SpecialRegisters
import Cpm.Proofs.Exchanges
import Cpm.Proofs.PrintedText
import Cpm.Proofs.MemoryRing
import Cpm.Proofs.AddressGrammar
import Cpm.Proofs.Loading
import Cpm.Proofs.SystemLayout
import Cpm.Proofs.SpareBits
