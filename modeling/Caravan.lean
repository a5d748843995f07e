import Caravan.StoreMoves.Lives
import Caravan.StoreMoves.Runner
import Caravan.Vault.Linear
import Caravan.Proxy.Phantom
import Caravan.Proxy.Sticky
import Caravan.Proxy.Deadline
import Caravan.Proxy.Relay
import Caravan.Proxy.Framing
import Caravan.Settings.Restore
import Caravan.Ports.Exclusions
import Caravan.Ports.OneThing
import Caravan.Stores.Apart
import Caravan.Vault.Locks
import Caravan.Auth.LastAdmin
import Caravan.Auth.Enabled
import Caravan.Auth.Throttle
import Caravan.Auth.Sessions
import Caravan.Cloud.SetMigration
import Caravan.Cloud.SpentOnce
import Caravan.Cloud.PoolGone
import Caravan.Entry.ModelKinds
import Caravan.Monitor.TokenHistory
import Caravan.Monitor.TopUp
import Caravan.Monitor.ClientMisses
import Caravan.Monitor.TerminalFrames
import Caravan.Monitor.Journal
import Caravan.Routes.Kept
import Caravan.Resets.Desk
import Caravan.Fleet.Bridge
import Caravan.Fleet.OneRecord
import Caravan.Documents.CachedJson
import Caravan.Documents.Damage
import Caravan.Cells.EngineBody
import Caravan.Cells.Rekeyed
import Caravan.Cells.Deleted
import Caravan.Levels.Migration
import Caravan.Proxy.LookAhead
import Caravan.Routing.Rescue
import Caravan.Proxy.RequestBody
import Caravan.Downloads.Transfer
import Caravan.Downloads.KeptBuild
import Caravan.Downloads.Digest
import Caravan.Downloads.VerifyJobs
import Caravan.Speech.FormRead
import Caravan.Speech.Languages
import Caravan.Speech.Split
import Caravan.Proxy.OutputHealth
import Caravan.Proxy.RequestFields
import Caravan.Translate.Anthropic
import Caravan.Translate.RequestWords
import Caravan.Translate.ToolCalls
import Caravan.Cloud.EndedLogins
import Caravan.Proxy.KeptApart
import Caravan.Schedules.ModelWatch
import Caravan.Schedules.PaintedWeek
import Caravan.Schedules.PowerOff
import Caravan.Proxy.RequestClock
import Caravan.Fleet.GpuMemory
import Caravan.Models.GgufHeader
import Caravan.Robot.ImageHeader
import Caravan.Proxy.Bypass
import Caravan.Fleet.ScoutPoll
