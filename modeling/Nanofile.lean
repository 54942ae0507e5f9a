import Nanofile.Fs.MergeLegalNames
import Nanofile.Fs.RangedDownload
import Nanofile.Fs.ZipContents
import Nanofile.RateLimit.Authenticate
import Nanofile.Repository.AuthCache
import Nanofile.Repository.JournalRetention
import Nanofile.Repository.SubtreeRows
import Nanofile.Serialization.FsJson
import Nanofile.Serialization.PackFs
import Nanofile.Service.CheckSizes
import Nanofile.Service.ConsistentRenames
import Nanofile.Service.DiffIds
import Nanofile.Service.EndedSessions
import Nanofile.Service.FileHistory
import Nanofile.Service.HistoryChanges
import Nanofile.Service.IndexRetries
import Nanofile.Service.ListingComplete
import Nanofile.Service.LockedUploads
import Nanofile.Service.MailRuns
import Nanofile.Service.MigrationRuns
import Nanofile.Service.OwnerRuns
import Nanofile.Service.QuotaRuns
import Nanofile.Service.ReservationEnds
import Nanofile.Service.RevisionRestore
import Nanofile.Service.SharedRuns
import Nanofile.Service.StreamedCommit
import Nanofile.Service.SubRepoCopies
import Nanofile.Service.SuppliedKeys
import Nanofile.Service.UpdateTargets
import Nanofile.Service.UploadCleanup
import Nanofile.Service.UploadLinks
import Nanofile.Service.WriterRuns
import Nanofile.Storage.BlockCacheRuns
import Nanofile.Storage.CdcPartition
import Nanofile.Storage.TrackedWrites
import Nanofile.Tasks.RecoveryLease
import Nanofile.Tasks.RunTally
import Nanofile.Webdav.FailedMoveReports
import Nanofile.Webdav.Hrefs
