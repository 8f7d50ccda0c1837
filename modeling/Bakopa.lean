import Bakopa.Lib.Machine
import Bakopa.Bloom.RoomModel
import Bakopa.Bloom.Handler
import Bakopa.Bloom.Handlers
import Bakopa.Bloom.Membership
import Bakopa.Bloom.Notices
import Bakopa.Bloom.Rosters
import Bakopa.Bloom.Disconnect
import Bakopa.Bloom.Stalled
import Bakopa.Bloom.Registered
import Bakopa.Syncer.Json
import Bakopa.Syncer.Messages
import Bakopa.Syncer.Api
import Bakopa.Syncer.ParticipantTable
import Bakopa.Syncer.RateLimiter
import Bakopa.Syncer.Presence
import Bakopa.Syncer.TransportInbox
import Bakopa.Syncer.BasicSyncer
import Bakopa.Syncer.WebrtcTransport
import Bakopa.Syncer.JsonText
import Bakopa.Syncer.Reports
import Bakopa.Syncer.Failures
import Bakopa.Syncer.Wire
import Bakopa.Syncer.Encoding
import Bakopa.Syncer.Reencoding
import Bakopa.Syncer.Acceptance
import Bakopa.Syncer.Delivery
import Bakopa.Syncer.Endpoint
import Bakopa.Syncer.Pair
import Bakopa.Syncer.SignalingAdapter
import Bakopa.Syncer.Sessions
import Bakopa.Relay
import Bakopa.Syncer.Subjects
import Bakopa.Syncer.Silence
import Bakopa.Syncer.Scope
import Bakopa.Client.Ecs
import Bakopa.Client.Bridge
import Bakopa.Client.Resources
import Bakopa.Client.Frames
import Bakopa.Bloom.Atomic
import Bakopa.Bloom.RoomTexts
import Bakopa.Syncer.Recipients
import Bakopa.Bloom.RateWindow
import Bakopa.Syncer.RateWindows
import Bakopa.Bloom.Handshake
import Bakopa.Syncer.RealWebrtc
import Bakopa.Syncer.TableRuns
import Bakopa.Bloom.Noninterference
import Bakopa.Bloom.Heartbeat
import Bakopa.Bloom.Throttle
import Bakopa.Bloom.Deliveries
import Bakopa.Streams
import Bakopa.Lib.Fields
import Bakopa.Bloom.Sockets
import Bakopa.Client.Session
import Bakopa.Syncer.Egress
import Bakopa.Bloom.Fanout
import Bakopa.Bloom.Quiescence
