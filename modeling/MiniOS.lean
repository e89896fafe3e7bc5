import MiniOS.AtaProtocol
import MiniOS.BootMemory
import MiniOS.CowRefinement
import MiniOS.DiskFsCrash
import MiniOS.DiskFsFailClosed
import MiniOS.Fat16Listing
import MiniOS.Fat16Termination
import MiniOS.Fat16WriteFrame
import MiniOS.FileHoles
import MiniOS.JobControl
import MiniOS.KernelHeapRun
import MiniOS.KeyboardOrder
import MiniOS.LifecycleKills
import MiniOS.LifecycleWaiting
import MiniOS.PipeFlow
import MiniOS.PreemptedShell
import MiniOS.RamFsPaths
import MiniOS.SignalFrames
import MiniOS.SleepingTasks
import MiniOS.UserHeapSizes
import MiniOS.UserPointers
import MiniOS.WakeOrder
import MiniOS.WordLoops
