import Sluice.Main
import Sluice.Proofs.Assembly.EdgeLinks
import Sluice.Proofs.Graph.MessageCycles
import Sluice.Proofs.Graph.ShutdownTanks
import Sluice.Proofs.Graph.PumpEffects
import Sluice.Proofs.Graph.Operations
import Sluice.Proofs.Route.RoundTrip
import Sluice.Proofs.Graph.MessageTours
import Sluice.Proofs.Assembly.Connections
import Sluice.Proofs.Assembly.RouteEdges
import Sluice.Proofs.Assembly.Ranks
import Sluice.Proofs.Graph.Handover
import Sluice.Proofs.Graph.Termination
import Sluice.Proofs.Assembly.Recast
import Sluice.Proofs.Graph.TrampolineGraph
import Sluice.Proofs.Graph.TrampolineRuns
import Sluice.Proofs.Graph.Trampoline
import Sluice.Proofs.Assembly.FanOuts
import Sluice.Proofs.Assembly.ParamTables
import Sluice.Proofs.Graph.RejectedResets
import Sluice.Proofs.Assembly.LevelEnds
import Sluice.Proofs.Graph.MirroredRuns
import Sluice.Proofs.Graph.Reentrancy
import Sluice.Proofs.Graph.TankCounts
import Sluice.Proofs.Graph.FedParcels
import Sluice.Proofs.Tank.Queue
import Sluice.Proofs.Graph.UnboundedQueue
import Sluice.Proofs.Param.TableOrder
import Sluice.Proofs.Assembly.Precedence
import Sluice.Proofs.Assembly.Substitution
import Sluice.Proofs.Assembly.StageTypes
import Sluice.Proofs.Graph.InlinedSubGraphs
import Sluice.Proofs.Assembly.Paths
import Sluice.Proofs.Config.LibraryRegistration
import Sluice.Proofs.Graph.SinkResults
import Sluice.Proofs.Assembly.Expansion
import Sluice.Proofs.Graph.FactorialLoop
import Sluice.Proofs.Graph.Clones
import Sluice.Proofs.Command.Output
import Sluice.Proofs.Config.BlankRoutes
import Sluice.Proofs.Literal.Numerals
import Sluice.Proofs.Param.Integers
import Sluice.Proofs.Stage.Comparisons
import Sluice.Proofs.Param.ParamSets
import Sluice.Proofs.Tank.ReleaseOrder
import Sluice.Proofs.Route.ErrorPlaces
