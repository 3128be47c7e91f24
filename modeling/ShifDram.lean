import ShifDram.Workload.BitweaveCount
import ShifDram.Cpu.RowInst
import ShifDram.Lsq.Youngest
import ShifDram.Cache.Functional
import ShifDram.Cache.Targets
import ShifDram.Dram.Bus
import ShifDram.Dram.Bursts
import ShifDram.Dram.Placement
import ShifDram.Dram.OpenRows
import ShifDram.Dram.Refresh
import ShifDram.Vm.Mremap
import ShifDram.Vm.Tlb
import ShifDram.Sim.Services
import ShifDram.Cpu.MemDep
import ShifDram.Cpu.Rename
import ShifDram.Cpu.StoreSet
import ShifDram.Dram.Decode
import ShifDram.Dram.Answers
import ShifDram.Sim.Checkpoint
import ShifDram.Mem.PacketQueue
import ShifDram.Mem.XBarLayer
import ShifDram.Mem.MemAccepts
import ShifDram.Mem.Stripes
