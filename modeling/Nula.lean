import Nula.Lib.Order
import Nula.Lib.Listing
import Nula.Lib.Wire
import Nula.Lib.Yields
import Nula.Lib.Always
import Nula.Lib.Until
import Nula.Lib.Lru
import Nula.Lib.Buckets
import Nula.Lib.Latest
import Nula.Lib.Json
import Nula.Lib.InFlight
import Nula.Lib.Decoder
import Nula.Lib.Checked
import Nula.Lib.Classes
import Nula.Lib.Base64
import Nula.Lib.Standing
import Nula.Lib.FormUrlencoded
import Nula.Lib.Delimited
import Nula.Lib.Spacing
import Nula.Lib.Decimal
import Nula.Lib.Slots
import Nula.Lib.Watched
import Nula.Lib.Batch
import Nula.Lib.Scan
import Nula.Lib.Joins
import Nula.Lib.Realign
import Nula.Core.Primitives
import Nula.Core.Str
import Nula.Core.Tag
import Nula.Core.Event
import Nula.Core.Filter
import Nula.Core.Message
import Nula.Core.Verify
import Nula.Core.Nips
import Nula.Core.Signing
import Nula.Core.MessageJson
import Nula.Core.TagList
import Nula.Core.Nip09
import Nula.Core.Nip13
import Nula.Core.Nip10
import Nula.Core.Fingerprint
import Nula.Core.GiftWrap
import Nula.Core.Canonical
import Nula.Core.Spelling
import Nula.Core.Nip26
import Nula.Core.Negentropy
import Nula.Core.Hostile
import Nula.Core.Nip44
import Nula.Core.Nip19
import Nula.Core.Nip49
import Nula.Core.IpAddr
import Nula.Core.Nip98
import Nula.Core.Parser
import Nula.Core.Nip27
import Nula.Core.Slug
import Nula.Core.Nip45
import Nula.Core.Nip54
import Nula.Core.Nip94
import Nula.Core.Nip92
import Nula.Core.Nip51
import Nula.Core.PrivateList
import Nula.Storage.Canonical
import Nula.Storage.Ledger
import Nula.Storage.Memory.Store
import Nula.Storage.Memory.Coherence
import Nula.Storage.Memory.Refine
import Nula.Storage.Memory.Query
import Nula.Storage.Memory.Capacity
import Nula.Storage.Redb.Keys
import Nula.Storage.Redb.Codec
import Nula.Storage.Redb.Store
import Nula.Storage.Redb.Coherence
import Nula.Storage.Redb.Scan
import Nula.Storage.Redb.Refine
import Nula.Storage.Redb.Query
import Nula.Storage.Agreement
import Nula.Storage.Tombstones
import Nula.Storage.Backend
import Nula.Storage.Authority
import Nula.Storage.Vanish
import Nula.Storage.AdminDelete
import Nula.Storage.Reads
import Nula.Relay.Actor
import Nula.Relay.Overflow
import Nula.Relay.Wire
import Nula.Relay.Link
import Nula.Relay.Tracked
import Nula.Relay.Announced
import Nula.Relay.Handles
import Nula.Relay.Refused
import Nula.Relay.Outbox
import Nula.Relay.Publish
import Nula.Relay.Lasting
import Nula.Relay.Status
import Nula.Relay.Granted
import Nula.Server.Connection
import Nula.Server.Effects
import Nula.Server.Broadcast
import Nula.Server.Replies
import Nula.Server.Closed
import Nula.Server.Auth
import Nula.Server.Gate
import Nula.Server.Protected
import Nula.Server.Limits
import Nula.Server.Rates
import Nula.Server.Management
import Nula.Server.Admin
import Nula.Pool.Stream
import Nula.Pool.Genuine
import Nula.Pool.Registry
import Nula.Pool.Shutdown
import Nula.Gossip.Options
import Nula.Gossip.Routes
import Nula.Gossip.BreakDown
import Nula.Gossip.Cache
import Nula.Gossip.WarmUp
import Nula.Gossip.Outdated
import Nula.Gossip.Hosts
import Nula.Gossip.Selection
import Nula.Gossip.Publish
import Nula.Sdk.Admission
import Nula.Sdk.PrivateMessage
import Nula.Gossip.Refresh
import Nula.Sdk.RelayLists
import Nula.Ingest
import Nula.Session
import Nula.Signer.Envelope
import Nula.Signer.Bunker
import Nula.Signer.Dispatcher
import Nula.Signer.Transparent
import Nula.Signer.Client
import Nula.Signer.Pairing
import Nula.Signer.Trust
import Nula.Signer.Exits
import Nula.Signer.Uri
import Nula.Signer.Permissions
import Nula.Wallet.Client
import Nula.Wallet.Exits
import Nula.Wallet.Answers
import Nula.Sdk.Database
import Nula.Sdk.Sync
import Nula.Sdk.Truthful
import Nula.Sdk.Subscriptions
import Nula.Sdk.Calls
import Nula.Sdk.Listed
