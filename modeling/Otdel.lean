import Otdel.Library.Program
import Otdel.Library.Run
import Otdel.Library.Interleaving
import Otdel.Library.Alone
import Otdel.Library.Disk
import Otdel.Library.Dropping
import Otdel.Library.Following
import Otdel.Library.Text
import Otdel.Library.Json
import Otdel.Library.JsonComments
import Otdel.Library.Modes
import Otdel.Library.Search
import Otdel.Library.Table
import Otdel.Library.Selection
import Otdel.Library.Sequential
import Otdel.Library.Simulation
import Otdel.Library.Transcript
import Otdel.Library.UnixPath
import Otdel.Library.Utf16
import Otdel.Library.Versions
import Otdel.Core.Error
import Otdel.Core.Config
import Otdel.Core.Media
import Otdel.Core.Validate
import Otdel.Core.Token
import Otdel.Core.Credentials
import Otdel.Core.DisplayName
import Otdel.Core.Status
import Otdel.Core.Uuid
import Otdel.Core.Model
import Otdel.Storage.Error
import Otdel.Storage.Key
import Otdel.Storage.KeySpelling
import Otdel.Storage.Listing
import Otdel.Db.Schema
import Otdel.Db.Sql
import Otdel.Db.Effects
import Otdel.Server.Op
import Otdel.Server.World
import Otdel.Server.Transactions
import Otdel.Server.Consistency
import Otdel.Server.Frame
import Otdel.Api.Error
import Otdel.Api.Http
import Otdel.Storage.Store
import Otdel.Api.Upload
import Otdel.Db.Repository
import Otdel.Api.Routes
import Otdel.Worker.Maintenance
import Otdel.Server.Requests
import Otdel.Storage.Place
import Otdel.Server.Originals
import Otdel.Server.Keeping
import Otdel.Server.Safety
import Otdel.Server.StoreSafety
import Otdel.Server.IntakeSafety
import Otdel.Server.TxSafety
import Otdel.Server.PublishSafety
import Otdel.Server.UploadSafety
import Otdel.Server.DownloadSafety
import Otdel.Server.Intake
import Otdel.Server.Handlers
import Otdel.Server.Serving
import Otdel.Server.Convergence
import Otdel.Server.Accepted
import Otdel.Server.Durability
import Otdel.Storage.OwnerOnly
import Otdel.Storage.Resolve
import Otdel.Db.Agreement
import Otdel.Db.Bureaus
import Otdel.Db.Provisioning
import Otdel.Db.Queue
import Otdel.Db.QueueKept
import Otdel.Db.RowSecurity
import Otdel.Db.Scope
import Otdel.Db.Sessions
import Otdel.Db.SessionLifetime
import Otdel.Db.SessionRuns
import Otdel.Db.Storable
import Otdel.Auth.Throttle
import Otdel.Auth.Guessing
import Otdel.Auth.AcceptedThrottle
import Otdel.Auth.HashPermits
import Otdel.Api.Session
import Otdel.Api.Headers
import Otdel.Api.Admission
import Otdel.Api.Cookie
import Otdel.Api.Disposition
import Otdel.Api.Logout
import Otdel.Api.Patch
import Otdel.Server.Cancellation
import Otdel.Server.Configured
import Otdel.Server.Deposits
import Otdel.Server.Fitting
import Otdel.Server.StoreAlone
import Otdel.Server.Healing
import Otdel.Server.Scoped
import Otdel.Server.Isolation
import Otdel.Server.Listings
import Otdel.Server.Noninterference
import Otdel.Server.Orphans
import Otdel.Server.Patching
import Otdel.Server.Recovery
import Otdel.Server.Reports
import Otdel.Server.Retrying
import Otdel.Server.RowSecurity
import Otdel.Server.WholeIntake
import Otdel.Web.Auth
import Otdel.Web.UseMaterials
import Otdel.Web.Gates
import Otdel.Web.Mutation
import Otdel.Web.Workspace
import Otdel.Web.PartnerList
import Otdel.Web.Timers
import Otdel.Web.Polling
import Otdel.Web.SessionPeriods
import Otdel.Web.ShownPartner
import Otdel.Scripts.TypeCheck
import Otdel.Scripts.Commands
import Otdel.Scripts.Jsonc
import Otdel.Scripts.Workflows
