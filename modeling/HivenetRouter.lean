import HivenetRouter.Policy.NoLostWakeup
import HivenetRouter.Auth.Durability
import HivenetRouter.Router.CrossConfig
import HivenetRouter.Router.HealthMonitor
import HivenetRouter.Api.InputBudget
import HivenetRouter.Auth.NeverForgets
import HivenetRouter.Api.PerModelQuota
import HivenetRouter.Admission.ParkedRequests
import HivenetRouter.Semantic.PinFreshness
import HivenetRouter.Wake.HolderSound
import HivenetRouter.Api.Redirect
import HivenetRouter.Router.DispatchSound
import HivenetRouter.Router.ConnHealth
import HivenetRouter.Policy.WaitLine
import HivenetRouter.Router.LineWriter
import HivenetRouter.Api.ModelAgreement
import HivenetRouter.Metrics.FinishReasons
import HivenetRouter.Metrics.LifetimeCounters
import HivenetRouter.Api.InputGates
import HivenetRouter.Semantic.WindowCheck
import HivenetRouter.Engine.HistogramQuantile
import HivenetRouter.Semantic.Keyword
import HivenetRouter.Api.AliasListing
import HivenetRouter.Semantic.DecisionLog
