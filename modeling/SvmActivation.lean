import SvmActivation.Proofs.ControlArea
import SvmActivation.Proofs.DeadFrames
import SvmActivation.Proofs.LoaderBookkeeping
import SvmActivation.Proofs.PagePairs
import SvmActivation.Proofs.ProbeDecision
import SvmActivation.Proofs.RecordedExits
import SvmActivation.Proofs.RegisterGuards
import SvmActivation.Proofs.RegisterText
import SvmActivation.Proofs.RepeatedRuns
import SvmActivation.Proofs.SettledRegisters
import SvmActivation.Proofs.VmCrReports
