import JavaScriptOS.Pci.AttachedDevices
import JavaScriptOS.Pci.LegacyBuses
import JavaScriptOS.Pci.LegacyPorts
import JavaScriptOS.Pci.Report
import JavaScriptOS.Pci.BarProbe
import JavaScriptOS.Pci.MsixSearch
import JavaScriptOS.Ioapic.Routing
import JavaScriptOS.Memory.InitVmm
import JavaScriptOS.Memory.BootTables
import JavaScriptOS.Memory.Exhaustion
import JavaScriptOS.Memory.SetupKvm
import JavaScriptOS.Memory.Derefpte
import JavaScriptOS.Heap.FreeList
import JavaScriptOS.Heap.Independence
import JavaScriptOS.Heap.Search
import JavaScriptOS.Heap.Conserve
import JavaScriptOS.Heap.Edges
import JavaScriptOS.Heap.Stack
import JavaScriptOS.BufferCache.Victim
import JavaScriptOS.BufferCache.OneBlock
import JavaScriptOS.Process.RoundRobin
import JavaScriptOS.Process.Pids
import JavaScriptOS.Trap.Halt
import JavaScriptOS.Trap.Priority
import JavaScriptOS.Devices.UartInit
import JavaScriptOS.Libcppk.ListIterator
import JavaScriptOS.Libcppk.Bitset
import JavaScriptOS.Libcppk.MemoryResource
import JavaScriptOS.Libcppk.StaticAllocator
import JavaScriptOS.Libcppk.Optional
import JavaScriptOS.Libc.Console
import JavaScriptOS.Filesystem.PathString
import JavaScriptOS.Boot.Multiboot
import JavaScriptOS.Boot.MadtEnds
