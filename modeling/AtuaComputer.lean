import AtuaComputer.AddressSpace
import AtuaComputer.ArgumentBlocks
import AtuaComputer.AttributeLaw
import AtuaComputer.Attributes
import AtuaComputer.Blindness
import AtuaComputer.BlinkMachine
import AtuaComputer.Bridge
import AtuaComputer.BridgeRing
import AtuaComputer.BridgeSlots
import AtuaComputer.ByteCodec
import AtuaComputer.ByteFile
import AtuaComputer.Children
import AtuaComputer.CloseOnExec
import AtuaComputer.DescriptorLimits
import AtuaComputer.Descriptors
import AtuaComputer.DirectoryPages
import AtuaComputer.DnsMessage
import AtuaComputer.DnsResponses
import AtuaComputer.ErrorAtomicity
import AtuaComputer.ErrorConditions
import AtuaComputer.Escaping
import AtuaComputer.ExclusiveOpens
import AtuaComputer.ExecArguments
import AtuaComputer.FdAlloc
import AtuaComputer.FileContents
import AtuaComputer.FileIdentity
import AtuaComputer.FileIo
import AtuaComputer.FileOutcomes
import AtuaComputer.FilePieces
import AtuaComputer.ForkMemory
import AtuaComputer.ForkState
import AtuaComputer.FstatWords
import AtuaComputer.GuestMemory
import AtuaComputer.GuestReads
import AtuaComputer.HiddenFiles
import AtuaComputer.Isolation
import AtuaComputer.JsMap
import AtuaComputer.JsNumber
import AtuaComputer.JsObject
import AtuaComputer.Kernel
import AtuaComputer.LinkAliases
import AtuaComputer.LinkNames
import AtuaComputer.LocalPipes
import AtuaComputer.MappedPages
import AtuaComputer.MappedRanges
import AtuaComputer.MemoryRuns
import AtuaComputer.NameTree
import AtuaComputer.NamespaceErrors
import AtuaComputer.Observations
import AtuaComputer.Offsets
import AtuaComputer.OpenFiles
import AtuaComputer.Outcomes
import AtuaComputer.PageOwners
import AtuaComputer.PagePool
import AtuaComputer.PagedMemory
import AtuaComputer.ParentPages
import AtuaComputer.PathWalk
import AtuaComputer.Persistence
import AtuaComputer.PipeCache
import AtuaComputer.PipeContract
import AtuaComputer.PipeEnds
import AtuaComputer.PipeNames
import AtuaComputer.PipeRing
import AtuaComputer.PipeSlots
import AtuaComputer.PipeWriters
import AtuaComputer.PosixPaths
import AtuaComputer.ProcessIds
import AtuaComputer.RadixTables
import AtuaComputer.RenameLaw
import AtuaComputer.Resolution
import AtuaComputer.RingBuffer
import AtuaComputer.Runs
import AtuaComputer.SendFile
import AtuaComputer.SharedCells
import AtuaComputer.SharedRefs
import AtuaComputer.SocketRing
import AtuaComputer.StatReports
import AtuaComputer.StatTargets
import AtuaComputer.StdinRing
import AtuaComputer.Syscalls
import AtuaComputer.TarArchives
import AtuaComputer.TrapProtocol
import AtuaComputer.TreeCoherence
import AtuaComputer.Untar
import AtuaComputer.UntarArchives
import AtuaComputer.UntarTermination
import AtuaComputer.UntarText
import AtuaComputer.Utf16
import AtuaComputer.Utf8
import AtuaComputer.VectoredFiles
import AtuaComputer.VectoredWrites
import AtuaComputer.Vfork
import AtuaComputer.VfsOperations
import AtuaComputer.VfsPaths
import AtuaComputer.VfsTables
import AtuaComputer.VirtualFs
import AtuaComputer.WaitDelivery
import AtuaComputer.Walks
import AtuaComputer.Wisp
import AtuaComputer.WordTransfer
import AtuaComputer.WorkerMemory
import AtuaComputer.WorkerReset
import AtuaComputer.WorkingDirectory
import AtuaComputer.WriteMarks
import AtuaComputer.WrittenCounts
