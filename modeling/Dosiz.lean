import Dosiz.Transition
import Dosiz.ByteMemory
import Dosiz.BlockChain
import Dosiz.FirstFit
import Dosiz.Extents
import Dosiz.CopyFlush
import Dosiz.Machine
import Dosiz.FlagEdit
import Dosiz.Descriptors
import Dosiz.Mcb
import Dosiz.McbOps
import Dosiz.McbBlocks
import Dosiz.PmArena
import Dosiz.MemoryServices
import Dosiz.ArenaSafety
import Dosiz.DpmiBlocks
import Dosiz.Ems
import Dosiz.EmsWindow
import Dosiz.PmException
import Dosiz.FaultGuard
import Dosiz.Gates
import Dosiz.RealMode
import Dosiz.Int31
import Dosiz.DpmiEntry
import Dosiz.HostTables
import Dosiz.ClientEntry
import Dosiz.ServiceFrame
import Dosiz.Loader
import Dosiz.Exec
import Dosiz.Handles
import Dosiz.Nesting
import Dosiz.ChildExit
import Dosiz.HostPath
import Dosiz.Vectors
import Dosiz.LeMemory
import Dosiz.Startup
import Dosiz.LdtSlots
import Dosiz.Conversions
import Dosiz.HostDescriptors
import Dosiz.EmsPages
import Dosiz.ProgramBlock
import Dosiz.XmsHandles
import Dosiz.EnvBlock
import Dosiz.FileHandles
import Dosiz.ChildEnv
import Dosiz.CurrentDir
import Dosiz.FoundNames
import Dosiz.McbCalls
import Dosiz.Fragments
import Dosiz.Walks
import Dosiz.PmAlloc
import Dosiz.FreeMemory
import Dosiz.ChainWalks
import Dosiz.DescriptorFields
import Dosiz.DescriptorGrants
import Dosiz.SegmentCaches
import Dosiz.LeStack
import Dosiz.LeFixups
import Dosiz.DosBlocks
import Dosiz.DeclinedFaults
import Dosiz.BlockHandles
import Dosiz.ProcessIdentity
import Dosiz.ExtenderFlag
import Dosiz.ChildBlocks
import Dosiz.FailedCalls
import Dosiz.CallbackReturn
import Dosiz.ModeSwitch
import Dosiz.ChildResources
import Dosiz.FailedLoads
import Dosiz.FixupReads
import Dosiz.FileBounds
import Dosiz.Quoting
import Dosiz.CommandTail
import Dosiz.StatusLoop
import Dosiz.MultiMap
import Dosiz.LeDescriptors
import Dosiz.XmsMove
import Dosiz.MzImage
import Dosiz.Overlay
import Dosiz.PageMap
import Dosiz.AliasedStores
import Dosiz.RegionMove
import Dosiz.ScratchStack
import Dosiz.XmsQuery
import Dosiz.ShortNames
import Dosiz.SearchAlias
import Dosiz.FindTimes
import Dosiz.FindSessions
import Dosiz.DriveBase
import Dosiz.OpenCalls
import Dosiz.TextRead
import Dosiz.ShortWrites
import Dosiz.ConsoleInput
import Dosiz.RingQueue
import Dosiz.TracedMemory
import Dosiz.KeyRing
import Dosiz.GlobMatch
import Dosiz.WideDivide
import Dosiz.CellMoves
import Dosiz.TextScreen
import Dosiz.ScreenWrites
import Dosiz.KeyPeek
import Dosiz.VesaModes
import Dosiz.Rescale
import Dosiz.MousePosition
import Dosiz.LoopStack
import Dosiz.RunLoop
import Dosiz.PicIrqs
import Dosiz.BiosClock
import Dosiz.MouseButtons
import Dosiz.Palette
import Dosiz.ConfigFile
import Dosiz.ConfigText
import Dosiz.Callbacks
import Dosiz.PaperRoll
import Dosiz.ConsoleRoll
import Dosiz.SharedTables
import Dosiz.ParentTables
import Dosiz.EmsDirectory
import Dosiz.Launch
import Dosiz.HighWords
import Dosiz.Patches
import Dosiz.FileContents
