import MtpMount.Attempts
import MtpMount.Buffer
import MtpMount.BufferRuns
import MtpMount.CacheHistory
import MtpMount.Chains
import MtpMount.Contents
import MtpMount.Creations
import MtpMount.Cuts
import MtpMount.DaemonRun
import MtpMount.Deletes
import MtpMount.Denotes
import MtpMount.Detach
import MtpMount.Device
import MtpMount.DeviceFacts
import MtpMount.DirStream
import MtpMount.Downloads
import MtpMount.DryRun
import MtpMount.Edits
import MtpMount.Error
import MtpMount.EventLoops
import MtpMount.Events
import MtpMount.FileAt
import MtpMount.FileReads
import MtpMount.Fill
import MtpMount.FillOutcome
import MtpMount.Flush
import MtpMount.FlushRules
import MtpMount.Fs
import MtpMount.FsIndex
import MtpMount.FsRules
import MtpMount.FsTokens
import MtpMount.Handles
import MtpMount.Inode
import MtpMount.InodeIndex
import MtpMount.InodeRuns
import MtpMount.InodeTokens
import MtpMount.Lib.ByteVec
import MtpMount.Lib.Cursor
import MtpMount.Lib.Executions
import MtpMount.Lib.HashMap
import MtpMount.Lib.Interaction
import MtpMount.Lib.Machines
import MtpMount.Lib.Specifications
import MtpMount.Lib.Transitions
import MtpMount.Lib.Walks
import MtpMount.Link
import MtpMount.LinkRules
import MtpMount.Loaded
import MtpMount.Losses
import MtpMount.MapOrder
import MtpMount.Mirror
import MtpMount.Mounts
import MtpMount.Moves
import MtpMount.Numbers
import MtpMount.OldObjects
import MtpMount.OneDownload
import MtpMount.OpenedFile
import MtpMount.Overwrites
import MtpMount.ParentWalks
import MtpMount.Paths
import MtpMount.Phone
import MtpMount.RangedRead
import MtpMount.Ranges
import MtpMount.Reached
import MtpMount.ReadBack
import MtpMount.ReadCaches
import MtpMount.ReadOnly
import MtpMount.Readers
import MtpMount.Reconnect
import MtpMount.Reconnects
import MtpMount.Recovery
import MtpMount.Relist
import MtpMount.Removals
import MtpMount.Renames
import MtpMount.Retries
import MtpMount.Rmdir
import MtpMount.SafeFlush
import MtpMount.Schedule
import MtpMount.ShortReads
import MtpMount.Size
import MtpMount.SparseCache
import MtpMount.StorageNames
import MtpMount.Storages
import MtpMount.Summary
import MtpMount.Supervisor
import MtpMount.Synced
import MtpMount.Text
import MtpMount.Tracker
import MtpMount.Unmounts
import MtpMount.Waits
import MtpMount.Written
