import Runkite.TerminalFinal
import Runkite.ToolGateSound
import Runkite.NatsFencing
import Runkite.KafkaGenerations
import Runkite.Provenance
import Runkite.RedisDequeue
import Runkite.StreamComplete
import Runkite.CascadeCancel
import Runkite.PolicyRevocation
import Runkite.InterruptAnswer
import Runkite.QueueAgreement
import Runkite.ArgsBinding
import Runkite.CheckpointRetention
import Runkite.CheckpointVersions
import Runkite.CheckpointFence
import Runkite.ResumeLookup
import Runkite.DailyQuota
import Runkite.Breaker
import Runkite.BudgetAdmission
import Runkite.UserContext
import Runkite.PayloadStash
import Runkite.ThreadHistory
import Runkite.TimeWindows
import Runkite.StoreProxy
import Runkite.PrefixSearch
import Runkite.MessageUsage
import Runkite.CronSchedule
import Runkite.VersionHistory
import Runkite.ResponseLimit
