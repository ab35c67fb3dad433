import Drac.Central.Leases
import Drac.Recordings.StopWins
import Drac.Recordings.RetentionProtection
import Drac.Access.PrivateContent
import Drac.Vision.CachedObjects
import Drac.Playback.TimelinePaging
import Drac.Playback.PlayerAgreement
import Drac.Central.Requests
import Drac.Central.AppliedPolicyRuns
import Drac.Access.AuthSessionRuns
import Drac.Cameras.OnvifEventRuns
import Drac.Investigations.CaseRecordRuns
import Drac.Recordings.ClipFileRuns
import Drac.CameraStream.DisabledCameras
import Drac.Central.PlanDraining
import Drac.Central.PlanOrder
import Drac.Central.AggregateMerging
import Drac.Central.RetentionPlan
import Drac.Recordings.DiskGuard
import Drac.Recordings.ExpiryRule
import Drac.Ptz.DeadMansSwitch
import Drac.Playback.TimelineSpans
import Drac.Recordings.RangeExportBounds
import Drac.Playback.Discontinuities
import Drac.CameraStream.CircuitMemory
import Drac.CameraStream.LeaseCounting
import Drac.Recordings.StageUndo
import Drac.Recordings.ConcatManifest
import Drac.Recordings.MotionPostRoll
import Drac.Recordings.ThumbnailSlots
import Drac.Recordings.GapsReport
import Drac.Playback.TimelineCoverage
import Drac.Recordings.RestartBrake
import Drac.CloudStorage.OffloadProgress
import Drac.Central.Migration
import Drac.Central.ProxyMatching
import Drac.Network.AddressPolicy
import Drac.Licence.CapAgreement
import Drac.Central.AlertHistoryRuns
import Drac.Process.SecretDocument
import Drac.Recordings.SafeFileConfinement
import Drac.Access.LockoutBound
import Drac.Access.RoleBoundaries
import Drac.Alarms.DeduplicationRuns
import Drac.Cameras.PrivateQuotaRuns
import Drac.Evidence.CanonicalSeal
import Drac.Central.Downsampling
import Drac.Vision.MotionContrast
import Drac.Recordings.StderrRing
import Drac.Review.ReviewFeed
import Drac.CameraStream.StreamWatchdog
import Drac.Vision.AiWatchdog
import Drac.Vision.ConfirmMotion
import Drac.CameraWorker.RecordingLoop
import Drac.Recordings.RecordingRelease
import Drac.Recordings.RemuxAttemptRuns
import Drac.Recordings.PreBuffer
import Drac.Recordings.ExportAccepted
import Drac.Recordings.ExportPoison
import Drac.Recordings.OverlapLookback
import Drac.Recordings.TimelinePreview
import Drac.Vision.ModelRegistry
import Drac.Central.InstallerTokens
import Drac.Central.InstallLog
import Drac.Vision.CaptureRate
import Drac.Recordings.RangeExportOffsets
import Drac.Central.AppSlugs
import Drac.Central.Sessions
import Drac.Playback.PlaylistRenewal
