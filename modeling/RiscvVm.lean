import RiscvVm.Lib.ByteMap
import RiscvVm.Memory
import RiscvVm.Devices
import RiscvVm.Bus
import RiscvVm.Cpu
import RiscvVm.Trap
import RiscvVm.Csr
import RiscvVm.Paging
import RiscvVm.Decoding
import RiscvVm.Access
import RiscvVm.Dispatch.Integer
import RiscvVm.Dispatch.LoadStore
import RiscvVm.Dispatch.Atomic
import RiscvVm.Dispatch.System
import RiscvVm.Step
import RiscvVm.Machine
import RiscvVm.Debugger
import RiscvVm.Loading
import RiscvVm.Disassembler
import RiscvVm.Encoders
import RiscvVm.Lib.Bits
import RiscvVm.Lib.Sv39
import RiscvVm.Lib.Rv64i
import RiscvVm.Lib.Rv64im
import RiscvVm.Lib.Rv64a
import RiscvVm.Lib.Encodings
import RiscvVm.Lib.Queue
import RiscvVm.Lib.Past
import RiscvVm.Lib.CInt
import RiscvVm.Dispatch.Checked
import RiscvVm.Proofs.Uart
import RiscvVm.Proofs.Bus
import RiscvVm.Proofs.Ram
import RiscvVm.Proofs.State
import RiscvVm.Proofs.Paging
import RiscvVm.Proofs.Bytewise
import RiscvVm.Proofs.Instructions
import RiscvVm.Proofs.Execution
import RiscvVm.Proofs.Traps
import RiscvVm.Proofs.Step
import RiscvVm.Proofs.CsrWrite
import RiscvVm.Proofs.Control
import RiscvVm.Proofs.Precise
import RiscvVm.Proofs.Reserved
import RiscvVm.Proofs.Interrupts
import RiscvVm.Proofs.Invariant
import RiscvVm.Proofs.Counters
import RiscvVm.Proofs.Privilege
import RiscvVm.Proofs.Isolation
import RiscvVm.Proofs.Storage
import RiscvVm.Proofs.Pending
import RiscvVm.Proofs.AddressSpace
import RiscvVm.Proofs.Alignment
import RiscvVm.Proofs.Reservation
import RiscvVm.Proofs.Encoding
import RiscvVm.Proofs.Handlers
import RiscvVm.Proofs.Refinement
import RiscvVm.Proofs.History
import RiscvVm.Proofs.Arithmetic
import RiscvVm.Proofs.Selection
import RiscvVm.Proofs.Views
import RiscvVm.Proofs.Atomics
import RiscvVm.Proofs.Reset
import RiscvVm.Proofs.Debugger
import RiscvVm.Proofs.Lenses
import RiscvVm.Proofs.Zicsr
import RiscvVm.Proofs.Preemption
import RiscvVm.Proofs.Secrecy
import RiscvVm.Proofs.ReadBack
import RiscvVm.Proofs.Returns
import RiscvVm.Proofs.Nesting
import RiscvVm.Proofs.Walks
import RiscvVm.Proofs.Transmit
import RiscvVm.Proofs.Clint
import RiscvVm.Proofs.Window
import RiscvVm.Proofs.Overlap
import RiscvVm.Proofs.Formats
import RiscvVm.Proofs.Called
import RiscvVm.Proofs.Disassembler
import RiscvVm.Proofs.Lines
import RiscvVm.Proofs.Shown
import RiscvVm.Proofs.Checked
import RiscvVm.Proofs.Loading
import RiscvVm.Proofs.Breakpoints
import RiscvVm.Proofs.UserPrograms
import RiscvVm.Proofs.Console
import RiscvVm.Proofs.Sessions
import RiscvVm.Proofs.HostInput
import RiscvVm.Proofs.TimeSharing
import RiscvVm.Proofs.Arrays
import RiscvVm.Proofs.Firmware
