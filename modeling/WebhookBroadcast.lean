import WebhookBroadcast.Interaction.RelyGuarantee
import WebhookBroadcast.Js.Number
import WebhookBroadcast.Effects
import WebhookBroadcast.Db.Endpoints
import WebhookBroadcast.Db.Broadcasts
import WebhookBroadcast.Action
import WebhookBroadcast.Worker.RetryPolicy
import WebhookBroadcast.Worker.ForwardHeaders
import WebhookBroadcast.Worker.ProcessDelivery
import WebhookBroadcast.Lifecycle.Timeline
import WebhookBroadcast.Lifecycle.Refinement
import WebhookBroadcast.Worker.Discipline
import WebhookBroadcast.Worker.Guarantees
import WebhookBroadcast.Lifecycle.History
import WebhookBroadcast.Lifecycle.Invariants
import WebhookBroadcast.Worker.Calls
import WebhookBroadcast.Lifecycle.Resolution
import WebhookBroadcast.Interaction.Alone
import WebhookBroadcast.Worker.Script
import WebhookBroadcast.Worker.Faults
import WebhookBroadcast.Worker.RetryChain
import WebhookBroadcast.Interaction.Isolation
import WebhookBroadcast.Interaction.Severed
import WebhookBroadcast.Worker.Shutdown
import WebhookBroadcast.Admin.RetryRoute
import WebhookBroadcast.Admin.RetryRace
import WebhookBroadcast.Admin.RetryKept
import WebhookBroadcast.Interaction.Sum
import WebhookBroadcast.Db.Writes
import WebhookBroadcast.Db.Channels
import WebhookBroadcast.Ingest.FanOut
import WebhookBroadcast.Streak.Board
import WebhookBroadcast.Endpoint.Board
import WebhookBroadcast.Worker.AutoDisable
import WebhookBroadcast.Endpoint.Traffic
import WebhookBroadcast.Endpoint.Chronicle
import WebhookBroadcast.Endpoint.Decision
import WebhookBroadcast.Endpoint.AutoDisable
import WebhookBroadcast.Endpoint.Completeness
import WebhookBroadcast.Endpoint.Reenablement
import WebhookBroadcast.Endpoint.DecisionRace
import WebhookBroadcast.Ingest.Headers
import WebhookBroadcast.Ingest.Routes
import WebhookBroadcast.Ingest.Commits
import WebhookBroadcast.Ingest.BodyLimit
import WebhookBroadcast.Admin.Fingerprints
import WebhookBroadcast.Ingest.Credentials
import WebhookBroadcast.Ingest.Snapshot
import WebhookBroadcast.Service.System
import WebhookBroadcast.Endpoint.Enablement
import WebhookBroadcast.Db.Collation
import WebhookBroadcast.Db.Failures
import WebhookBroadcast.Service.Ownership
import WebhookBroadcast.Relational.Keyset
import WebhookBroadcast.Relational.Listing
import WebhookBroadcast.Admin.Cursors
import WebhookBroadcast.Db.Directory
import WebhookBroadcast.Channel.Directory
import WebhookBroadcast.Channel.Health
import WebhookBroadcast.Channel.Counters
import WebhookBroadcast.Db.Lists
import WebhookBroadcast.Activity.Pages
import WebhookBroadcast.Endpoint.Rule
import WebhookBroadcast.Worker.RetryAfter
import WebhookBroadcast.Worker.OutboundHeaders
import WebhookBroadcast.Interaction.Ghost
import WebhookBroadcast.Lifecycle.Times
import WebhookBroadcast.Admin.AuthRoutes
import WebhookBroadcast.Admin.LoginLimit
import WebhookBroadcast.Db.CursorTexts
import WebhookBroadcast.Admin.ListRoutes
import WebhookBroadcast.Net.Ip
import WebhookBroadcast.Contract.EndpointUrl
import WebhookBroadcast.Contract.BlockedHosts
import WebhookBroadcast.Admin.EndpointRoutes
import WebhookBroadcast.Service.Broadcasts
import WebhookBroadcast.Service.ReplayTree
import WebhookBroadcast.Graph.DepthFirst
import WebhookBroadcast.ErrorChain
import WebhookBroadcast.Db.PgErrors
import WebhookBroadcast.Db.ChannelWrites
import WebhookBroadcast.Contract.Channel
import WebhookBroadcast.Admin.ChannelRoutes
import WebhookBroadcast.Admin.BroadcastList
import WebhookBroadcast.Activity.View
import WebhookBroadcast.Activity.LoadMore
import WebhookBroadcast.Js.Split
import WebhookBroadcast.Codec.Base64url
import WebhookBroadcast.Credentials.Tokens
import WebhookBroadcast.Db.Tokens
import WebhookBroadcast.Interaction.Residue
import WebhookBroadcast.Credentials.Deployment
import WebhookBroadcast.Credentials.Guard
import WebhookBroadcast.Credentials.Trust
import WebhookBroadcast.Credentials.Revocation
import WebhookBroadcast.Interaction.Similarity
import WebhookBroadcast.Credentials.Secrecy
import WebhookBroadcast.Credentials.ClosedChannels
import WebhookBroadcast.Worker.RetentionSweeper
import WebhookBroadcast.Interaction.Monitor
import WebhookBroadcast.Retention.Commitments
import WebhookBroadcast.Retention.Removals
import WebhookBroadcast.Retention.Kept
import WebhookBroadcast.Interaction.Embedding
import WebhookBroadcast.Lifecycle.Deployed
import WebhookBroadcast.Lifecycle.Foreign
import WebhookBroadcast.Lifecycle.DetailReads
import WebhookBroadcast.Dispatch.Run
import WebhookBroadcast.Dispatch.Errands
import WebhookBroadcast.Dispatch.Floor
import WebhookBroadcast.Dispatch.Requests
import WebhookBroadcast.Dispatch.Reliable
import WebhookBroadcast.Timed.Machine
import WebhookBroadcast.Web.DelayedPending
import WebhookBroadcast.Web.ElapsedClock
import WebhookBroadcast.Codec.Utf8
import WebhookBroadcast.Codec.FormUrlencoded
import WebhookBroadcast.Js.SearchParams
import WebhookBroadcast.Js.Joined
import WebhookBroadcast.Db.UuidText
import WebhookBroadcast.Activity.FailureGroups
import WebhookBroadcast.Db.EndpointHealth
import WebhookBroadcast.Endpoint.Health
import WebhookBroadcast.Relational.Percentile
