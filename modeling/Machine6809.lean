import Machine6809.Error
import Machine6809.Machine.Tick
import Machine6809.Memory.Observed
import Machine6809.Memory.Ram
import Machine6809.Text.Lines
import Machine6809.Pool.Allocate
import Machine6809.Pool.Defrag
import Machine6809.Pool.Splice
import Machine6809.Mmu.Fingerprint
import Machine6809.Mmu.RegisterBlock
import Machine6809.Mmu.SelfTest
import Machine6809.Mmu.Window
import Machine6809.Board
import Machine6809.Main
import Machine6809.Proofs.Pool.Nodes
import Machine6809.Proofs.Pool.Layout
import Machine6809.Proofs.Pool.Chains
import Machine6809.Proofs.Pool.Allocation
import Machine6809.Proofs.Pool.Relocation
import Machine6809.Proofs.Pool.Blank
import Machine6809.Proofs.Pool.Reading
import Machine6809.Proofs.Pool.Carried
import Machine6809.Proofs.Pool.Kinds
import Machine6809.Proofs.Mmu.Requests
import Machine6809.Proofs.Mmu.Actions
import Machine6809.Proofs.Mmu.Runs
import Machine6809.Proofs.Mmu.Invariants
import Machine6809.Proofs.Mmu.Splicing
import Machine6809.Proofs.Mmu.Refusals
import Machine6809.Proofs.Mmu.Windows
import Machine6809.Proofs.Mmu.Freeing
import Machine6809.Proofs.Mmu.Defragmentation
import Machine6809.Proofs.Mmu.Cells
import Machine6809.Proofs.Mmu.Carrying
import Machine6809.Proofs.Mmu.Kinds
import Machine6809.Proofs.Mmu.Locks
import Machine6809.Proofs.Histories
import Machine6809.Proofs.Bus.Places
import Machine6809.Proofs.Bus.WindowMemory
import Machine6809.Proofs.Machine.Actions
import Machine6809.Proofs.Machine.Pacing
import Machine6809.Proofs.Machine.Stacks
import Machine6809.Proofs.Machine.Executing
import Machine6809.Proofs.Machine.Returning
import Machine6809.Proofs.Bus.FlatMemory
import Machine6809.Proofs.Cpu.RegisterFile
import Machine6809.Proofs.Machine.Faulting
import Machine6809.Proofs.Machine.Agreement
import Machine6809.Proofs.Machine.Events
import Machine6809.Proofs.Machine.Adoption
import Machine6809.Proofs.Machine.Edges
import Machine6809.Proofs.Bus.Slots
import Machine6809.Proofs.Bus.Messages
import Machine6809.Proofs.Bus.Tiling
import Machine6809.Proofs.Machine.Simulation
import Machine6809.Proofs.Machine.Vectors
import Machine6809.Proofs.Board.MemoryMap
import Machine6809.Proofs.Board.Isolation
import Machine6809.Proofs.Board.Running
import Machine6809.Proofs.Cpu.Codes
import Machine6809.Proofs.Machine.Codes
import Machine6809.Proofs.Machine.Locating
import Machine6809.Proofs.Cpu.Stores
import Machine6809.Proofs.Machine.Stores
import Machine6809.Proofs.Pool.FirstFit
import Machine6809.Proofs.Mmu.FirstFit
import Machine6809.Proofs.Pool.Restoring
import Machine6809.Proofs.Mmu.Undoing
import Machine6809.Proofs.Pool.Settling
import Machine6809.Proofs.Mmu.Settling
import Machine6809.Proofs.Mmu.WordRegisters
import Machine6809.Proofs.Mmu.CursorPath
import Machine6809.Proofs.Machine.Waiting
import Machine6809.Proofs.Cpu.Comparison
import Machine6809.Proofs.Machine.Comparing
import Machine6809.Proofs.Cpu.Indexing
import Machine6809.Proofs.Cpu.Leaps
import Machine6809.Proofs.Machine.Lengths
import Machine6809.Proofs.Machine.Indexing
import Machine6809.Proofs.Cpu.Digits
import Machine6809.Proofs.Machine.Columns
import Machine6809.Proofs.Machine.Multiprecision
import Machine6809.Proofs.Machine.Decimal
import Machine6809.Proofs.Machine.Visiting
import Machine6809.Proofs.Machine.Pulling
import Machine6809.Proofs.Bus.Images
import Machine6809.Proofs.Cpu.Forms
import Machine6809.Proofs.Machine.Mirroring
import Machine6809.Proofs.Machine.Forms
import Machine6809.Proofs.Machine.Nesting
import Machine6809.Proofs.Pool.Loops
import Machine6809.Proofs.Mmu.Loops
import Machine6809.Proofs.CommandLine.Limits
import Machine6809.Proofs.Bus.Writings
