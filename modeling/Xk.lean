import Xk.BootMemory
import Xk.CreatedFiles
import Xk.Deallocation
import Xk.DescriptorCalls
import Xk.FilePositions
import Xk.FullDisk
import Xk.Grep
import Xk.HeapGrowth
import Xk.IdeDriver
import Xk.LineDiscipline
import Xk.LoadedImage
import Xk.Memmove
import Xk.MpTable
import Xk.PathResolution
import Xk.PipeIndices
import Xk.PipeLocks
import Xk.PrintInt
import Xk.Reopening
import Xk.Scheduling
import Xk.SharedReads
import Xk.SleepLock
import Xk.SpinLock
import Xk.UserPointers
import Xk.WaitExit
