import ClauseExchange.Engine.Scripted
import ClauseExchange.Main
import ClauseExchange.Proofs.Exchange.Delivery
import ClauseExchange.Proofs.Exchange.Progress
import ClauseExchange.Proofs.Exchange.ScheduleIndependence
import ClauseExchange.Proofs.Coordinator.Reports
import ClauseExchange.Proofs.Mailbox.Retained
import ClauseExchange.Proofs.Exchange.Retention
import ClauseExchange.Proofs.Exchange.PeriodLength
import ClauseExchange.Proofs.Exchange.Imports
import ClauseExchange.Proofs.Exchange.ImportLag
import ClauseExchange.Proofs.Mailbox.Session
import ClauseExchange.Proofs.Mailbox.ExactRetention
import ClauseExchange.Proofs.Exchange.Exports
import ClauseExchange.Proofs.Exchange.WaysOut
import ClauseExchange.Proofs.Outbox.Drain
import ClauseExchange.Proofs.Exchange.Clock
import ClauseExchange.Proofs.Exchange.BoundaryLoop
import ClauseExchange.Proofs.Exchange.Winner
import ClauseExchange.Proofs.Portfolio.Moves
import ClauseExchange.Proofs.Portfolio.Result
import ClauseExchange.Proofs.ClauseSet.Freezing
import ClauseExchange.Proofs.Coordinator.StopDecisions
import ClauseExchange.Proofs.Exchange.ForcedApplications
import ClauseExchange.Proofs.Exchange.Averages
import ClauseExchange.Proofs.Exchange.Driven
import ClauseExchange.Proofs.Portfolio.Model
import ClauseExchange.Proofs.Mailbox.Misuse
import ClauseExchange.Proofs.Coordinator.Construction
import ClauseExchange.Proofs.Engine.SimulatedRun
import ClauseExchange.Proofs.Engine.LearntClauses
import ClauseExchange.Proofs.Engine.RootUnits
