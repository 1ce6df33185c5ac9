import Bike4Mind.AgentBilling.Runs
import Bike4Mind.AgentExecution.PausesAnswered
import Bike4Mind.ApplyPatch.AllOrNothing
import Bike4Mind.ApplyPatch.Endings
import Bike4Mind.ApplyPatch.Rendering
import Bike4Mind.Approvals.CoversApproved
import Bike4Mind.Artifacts.Blocks
import Bike4Mind.Auth.RefreshBurst
import Bike4Mind.Auth.SessionExpiry
import Bike4Mind.Auth.SignedOut
import Bike4Mind.BackgroundAgents.ReportsOnce
import Bike4Mind.ContextPruning.CopiesKept
import Bike4Mind.Credits.ConcurrentHolds
import Bike4Mind.Credits.FundingSources
import Bike4Mind.Credits.LotExpiry
import Bike4Mind.Credits.PendingSettlement
import Bike4Mind.Credits.RefundClawbacks
import Bike4Mind.Dag.NodeTerminal
import Bike4Mind.DataLakes.BoundedTopK
import Bike4Mind.DataLakes.Curators
import Bike4Mind.DataLakes.FairOrder
import Bike4Mind.DataLakes.ListMatchesGate
import Bike4Mind.DataLakes.MembershipLog
import Bike4Mind.DataLakes.OffersApplied
import Bike4Mind.DataLakes.PurgeFence
import Bike4Mind.DataLakes.SetTagsSettle
import Bike4Mind.DataLakes.UnarchiveDedup
import Bike4Mind.Diffs.ApprovalDiff
import Bike4Mind.FileChunks.Resplit
import Bike4Mind.FileChunks.SlideRuns
import Bike4Mind.FileChunks.SpreadsheetChunks
import Bike4Mind.GenerationJobs.Cancel
import Bike4Mind.GenerationJobs.HoldFollowsJob
import Bike4Mind.GenerationJobs.Recovery
import Bike4Mind.GenerationJobs.Submits
import Bike4Mind.Hearth.Catchup
import Bike4Mind.History.Accepted
import Bike4Mind.History.Steady
import Bike4Mind.Lattice.EditsKept
import Bike4Mind.MembershipDiff.TellsTruth
import Bike4Mind.ModelCatalog.MergeLawful
import Bike4Mind.Permissions.SearchesCovered
import Bike4Mind.Replies.ReasoningWithheld
import Bike4Mind.Replies.VisibleText
import Bike4Mind.Rewards.Metered
import Bike4Mind.Semaphore.FairHandOff
import Bike4Mind.Sharing.Leaving
import Bike4Mind.Shell.OutputAccounted
import Bike4Mind.Shell.PollsInOrder
import Bike4Mind.StalenessSweep.EachOnce
import Bike4Mind.Supersession.SubjectsKept
import Bike4Mind.ToolCredits.GateCredits
import Bike4Mind.Transcript.Repaired
