import DrAvx.Rewrite.SpillGpr
import DrAvx.Contract.Conformance
import DrAvx.Contract.Dispatch
import DrAvx.Contract.Scratch
import DrAvx.Contract.Coherence
import DrAvx.Contract.ZeroUpper
import DrAvx.Emulation.ZmmArith
import DrAvx.Scheduler.FlexibleQueue
import DrAvx.Core.Bitmap
import DrAvx.Core.VmAreaSearch
import DrAvx.Core.VmAreaPayload
import DrAvx.Core.VmAreaTypes
import DrAvx.Core.HashtablePresize
import DrAvx.Core.Scanf
import DrAvx.Core.HashtableIterate
import DrAvx.Core.DispWidth
import DrAvx.Emulation.ThreeRegisters
import DrAvx.Emulation.Broadcast
import DrAvx.Emulation.Rotate
import DrAvx.Containers.HashtablePersist
import DrAvx.Containers.Table
import DrAvx.Drmgr.CallbackList
import DrAvx.Emulation.Permute
import DrAvx.InstrList.Clone
import DrAvx.Cachesim.Contents
import DrAvx.Emulation.OpmaskShift
import DrAvx.Emulation.OpmaskTest
import DrAvx.Emulation.OpmaskLogic
import DrAvx.Emulation.OpmaskMove
import DrAvx.Emulation.Vpcmp
