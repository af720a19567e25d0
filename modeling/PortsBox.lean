import PortsBox.Lib.MapSum
import PortsBox.Lib.Word
import PortsBox.Lib.Apportion
import PortsBox.Lib.Accounts
import PortsBox.Lib.Periods
import PortsBox.Lib.Rollover
import PortsBox.Lib.Table
import PortsBox.Lib.Window
import PortsBox.Lib.Words
import PortsBox.Lib.WriteBack
import PortsBox.Lib.Rounding
import PortsBox.Lib.Overshoot
import PortsBox.Lib.Watch
import PortsBox.Provider
import PortsBox.LedgerCore
import PortsBox.LedgerSplit
import PortsBox.LedgerPosting
import PortsBox.LedgerRecords
import PortsBox.LedgerStages
import PortsBox.LedgerCalls
import PortsBox.LedgerConservation
import PortsBox.LedgerCredit
import PortsBox.LedgerCalibration
import PortsBox.LedgerExclusive
import PortsBox.QuotaCore
import PortsBox.QuotaBilling
import PortsBox.QuotaHardStop
import PortsBox.QuotaActions
import PortsBox.QuotaRaces
import PortsBox.ConfigCore
import PortsBox.ConfigListens
import PortsBox.ConfigSizes
import PortsBox.ConfigSections
import PortsBox.RuntimeCore
import PortsBox.RuntimeApply
import PortsBox.RuntimeReconcile
import PortsBox.RuntimeRuns
import PortsBox.RuntimeSpare
import PortsBox.RuntimeHandover
import PortsBox.EngineCore
import PortsBox.EngineSteps
import PortsBox.EngineLimits
import PortsBox.StateDb
import PortsBox.StateFlush
import PortsBox.EngineOps
import PortsBox.EngineCommit
import PortsBox.LedgerBaselines
import PortsBox.ProcessCore
import PortsBox.ProcessStart
import PortsBox.ProcessFloors
import PortsBox.ProcessUsage
import PortsBox.ProcessSpending
import PortsBox.UdpCore
import PortsBox.UdpSessions
import PortsBox.UdpFlow
import PortsBox.UdpOrder
import PortsBox.UdpLoss
import PortsBox.UdpLimit
import PortsBox.TcpCore
import PortsBox.TcpRelay
import PortsBox.PanelAccess
import PortsBox.PanelSessions
import PortsBox.PanelStore
import PortsBox.PanelRefusals
import PortsBox.PanelRuns
import PortsBox.PanelRevisions
import PortsBox.PanelTrail
import PortsBox.PanelDropped
import PortsBox.PanelRestart
import PortsBox.LedgerManual
import PortsBox.LedgerForfeits
import PortsBox.LedgerResync
import PortsBox.LedgerRows
import PortsBox.LedgerEntries
import PortsBox.LedgerCredited
import PortsBox.PoolCore
import PortsBox.PoolFailover
import PortsBox.PoolCooldown
import PortsBox.QuotaSplit
import PortsBox.UdpSegments
import PortsBox.Volcengine
import PortsBox.LedgerFairness
import PortsBox.QuotaOvershoot
import PortsBox.Wakeups
import PortsBox.EngineLoop
import PortsBox.PoolProbes
import PortsBox.PanelPage
import PortsBox.RuntimeUntouched
import PortsBox.PanelCredit
import PortsBox.Lib.Lockstep
import PortsBox.PanelSecret
import PortsBox.UdpIdle
import PortsBox.Lib.Trace
import PortsBox.FileWatch
import PortsBox.FileRestart
