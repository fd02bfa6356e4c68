import StoreWarden.Main
import StoreWarden.Settings.Decode
import StoreWarden.Proofs.LastPart
import StoreWarden.Proofs.NamedNode
import StoreWarden.Proofs.RecordChange
import StoreWarden.Proofs.RecordHistory
import StoreWarden.Proofs.RetryAttempts
import StoreWarden.Proofs.HandshakeLog
import StoreWarden.Proofs.Interleaving
import StoreWarden.Proofs.SharedRecord
import StoreWarden.Proofs.SignalRaces
import StoreWarden.Proofs.TasksAlone
import StoreWarden.Proofs.CancelledHandshake
import StoreWarden.Proofs.MemberTimes
import StoreWarden.Proofs.RunCourse
import StoreWarden.Proofs.HonestAnswers
import StoreWarden.Proofs.HonestParts
import StoreWarden.Proofs.RunAnswer
import StoreWarden.Proofs.StopTime
import StoreWarden.Proofs.LateLaunch
import StoreWarden.Proofs.TwoStages
import StoreWarden.Proofs.ReadyRecord
import StoreWarden.Proofs.ChildEnd
import StoreWarden.Proofs.StoppedWait
import StoreWarden.Proofs.CheckedLaunch
import StoreWarden.Proofs.BrokenRun
import StoreWarden.Proofs.RetryLaw
import StoreWarden.Proofs.ControlServer
import StoreWarden.Proofs.WatchSchedule
import StoreWarden.Proofs.WatchedFlag
import StoreWarden.Proofs.PrintableSettings
import StoreWarden.Proofs.ProcessEnd
import StoreWarden.Proofs.ExitCode
import StoreWarden.Proofs.RetryChoice
import StoreWarden.Proofs.HandshakeTimes
import StoreWarden.Proofs.PlainText
import StoreWarden.Proofs.WholeReplies
import StoreWarden.Proofs.StoredDocument
import StoreWarden.Proofs.FailedHandshake
import StoreWarden.Proofs.StatusWords
import StoreWarden.Proofs.EncodedText
import StoreWarden.Proofs.SameDirectory
import StoreWarden.Proofs.WholeRecord
import StoreWarden.Proofs.SilentRequest
import StoreWarden.Proofs.ReadyWatch
import StoreWarden.Proofs.ExitReport
import StoreWarden.Proofs.ReportedExit
import StoreWarden.Proofs.FirstReport
import StoreWarden.Proofs.WaitEnding
import StoreWarden.Proofs.BrokenStartup
import StoreWarden.Proofs.RepeatedSetup
import StoreWarden.Proofs.CheckPace
import StoreWarden.Proofs.SidecarAddress
import StoreWarden.Proofs.LoadedIdentity
import StoreWarden.Proofs.UnmixedMaterial
import StoreWarden.Proofs.OptionSources
import StoreWarden.Proofs.PrintedSettings
import StoreWarden.Proofs.ReportHistory
import StoreWarden.Proofs.AddressParts
