import SymbiOS.UndoLog
import SymbiOS.Evacuate
import SymbiOS.SavedAffinities
import SymbiOS.Reservations
import SymbiOS.ExclusiveCpu
import SymbiOS.KillOthers
import SymbiOS.GuardedRun
import SymbiOS.Gate
import SymbiOS.IdtAdaptor
import SymbiOS.EfAdaptor
import SymbiOS.EfAdaptorInit
import SymbiOS.PfAdaptor
import SymbiOS.AdaptorTables
import SymbiOS.AdaptorRuns
import SymbiOS.Redirection
import SymbiOS.AdaptorPages
import SymbiOS.SavedHandlers
import SymbiOS.Interposition
import SymbiOS.BitStruct
import SymbiOS.GateLayout
import SymbiOS.IdtrInterposer
import SymbiOS.X86.Memory
import SymbiOS.X86.Machine
import SymbiOS.X86.Stack
import SymbiOS.FrameRelocation
import SymbiOS.FrameExec
import SymbiOS.FrameRuns
import SymbiOS.Transparency
import SymbiOS.UserFrames
import SymbiOS.FrameExits
import SymbiOS.FrameAlignment
import SymbiOS.InterposerHandlers
import SymbiOS.KcutTcp
import SymbiOS.KcutCounter
import SymbiOS.KcutThreshold
import SymbiOS.EchoServer
import SymbiOS.Elevation
import SymbiOS.Elf.Tables
import SymbiOS.KldElf
import SymbiOS.KldLayout
import SymbiOS.FreeList
import SymbiOS.KldFs
import SymbiOS.KldInodes
import SymbiOS.KldTree
import SymbiOS.KldGrow
import SymbiOS.KldPurge
import SymbiOS.KldCleanup
import SymbiOS.CLib
import SymbiOS.KldInit
import SymbiOS.KldRequests
import SymbiOS.KldDuplicates
import SymbiOS.KldIndexes
import SymbiOS.Records
import SymbiOS.KldListing
import SymbiOS.GrowArray
import SymbiOS.KldReadback
import SymbiOS.Scanf
import SymbiOS.OrderedTable
import SymbiOS.KldKallsyms
import SymbiOS.KldModules
import SymbiOS.BackLinkage
import SymbiOS.HexString
import SymbiOS.FindLibkallsyms
import SymbiOS.PyText
import SymbiOS.GenIfunc
import SymbiOS.GenAppHeader
import SymbiOS.EchoSession
import SymbiOS.DebugTrap
import SymbiOS.ExtensionInit
import SymbiOS.FaultCode
import SymbiOS.KldLoop
import SymbiOS.KldPipeline
import SymbiOS.KldResources
import SymbiOS.BackCalls
