import Ttm50.LabelledRuns
import Ttm50.TargetDriver
import Ttm50.TargetSystem
import Ttm50.TargetChunks
import Ttm50.TargetExclusion
import Ttm50.TargetIsolation
import Ttm50.TargetTransfer
import Ttm50.TargetBuffer
import Ttm50.CStdio
import Ttm50.InteractivePrograms
import Ttm50.FlashDriver
import Ttm50.FlashLines
import Ttm50.FlashRegister
import Ttm50.FlashModes
import Ttm50.FlashDevice
import Ttm50.FlashSuccess
import Ttm50.FlashExits
import Ttm50.ByteBuffers
import Ttm50.DiskTestDriver
import Ttm50.DiskTestResults
import Ttm50.FlashOperations
import Ttm50.FlashGates
import Ttm50.TfsHeader
import Ttm50.TfshDriver
import Ttm50.TfshSession
import Ttm50.DirectoryTrees
import Ttm50.FindDriver
import Ttm50.FindLibrary
import Ttm50.FindTraversal
import Ttm50.FindResults
import Ttm50.FlashDecode
import Ttm50.FlashWindow
import Ttm50.FlashAttempts
import Ttm50.FlashErasure
import Ttm50.DiskTestGeometry
import Ttm50.DiskTestMemory
import Ttm50.BenchDriver
import Ttm50.BenchResults
import Ttm50.FullTestDriver
import Ttm50.TfsDescriptors
import Ttm50.TfsManual
import Ttm50.FullTestResults
import Ttm50.FullTestStat
import Ttm50.CPrintf
import Ttm50.ProbeDriver
import Ttm50.ProbeResults
import Ttm50.LinkTables
import Ttm50.TestSequences
import Ttm50.DirectoryTestDriver
import Ttm50.TfsDirectories
import Ttm50.TfsFrames
import Ttm50.TfsPlaces
import Ttm50.DirectoryTestFiles
import Ttm50.DirectoryTestDirectories
import Ttm50.DirectoryTestResults
