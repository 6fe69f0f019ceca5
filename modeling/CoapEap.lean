import CoapEap.Library.Runs
import CoapEap.Library.Logs
import CoapEap.Library.Locking
import CoapEap.Library.OptionFormat
import CoapEap.Library.OptionReading
import CoapEap.Library.OptionInsertion
import CoapEap.Library.FirstMatch
import CoapEap.Library.LinkedList
import CoapEap.Library.Buffer
import CoapEap.Library.Cmac
import CoapEap.Library.EaxMode
import CoapEap.Library.Records
import CoapEap.Library.Feedback
import CoapEap.Library.Streaming
import CoapEap.Library.LockOrder
import CoapEap.Bytes
import CoapEap.Datagram
import CoapEap.UriPath
import CoapEap.Codecs
import CoapEap.Hypermedia
import CoapEap.Controller.Cantcoap
import CoapEap.Controller.EapServer
import CoapEap.Controller.Radius
import CoapEap.Controller.RadiusMessage
import CoapEap.Controller.RadiusAuthenticity
import CoapEap.Controller.Md5
import CoapEap.Controller.RadiusKeys
import CoapEap.Controller.Lalarm
import CoapEap.Controller.State
import CoapEap.Controller.Handlers
import CoapEap.Controller.System
import CoapEap.Controller.Frames
import CoapEap.Controller.Moves
import CoapEap.Controller.Activities
import CoapEap.Controller.Retransmission
import CoapEap.Controller.WellFormed
import CoapEap.Controller.Messages
import CoapEap.Controller.Parsing
import CoapEap.Controller.Building
import CoapEap.Controller.Sessions
import CoapEap.Controller.StoredPosts
import CoapEap.Controller.Cancellation
import CoapEap.Controller.Acknowledgment
import CoapEap.Controller.StaleExpiry
import CoapEap.Controller.Authenticator
import CoapEap.Controller.Machines
import CoapEap.Controller.Rejection
import CoapEap.Controller.Routing
import CoapEap.Controller.Workarround
import CoapEap.Controller.Completion
import CoapEap.Controller.TaskQueue
import CoapEap.Controller.Creation
import CoapEap.Controller.Screening
import CoapEap.Controller.Success
import CoapEap.Controller.Resting
import CoapEap.Controller.FinalPost
import CoapEap.Controller.Locations
import CoapEap.Controller.References
import CoapEap.Controller.Belongings
import CoapEap.Controller.Identifiers
import CoapEap.Controller.ClientFrame
import CoapEap.Controller.Serial
import CoapEap.Controller.HandOver
import CoapEap.Controller.Stranding
import CoapEap.Controller.Quiescence
import CoapEap.Controller.EapResponses
import CoapEap.Controller.IdentityResponse
import CoapEap.Controller.TimerQueue
import CoapEap.Controller.AlarmMemory
import CoapEap.Controller.Schedule
import CoapEap.Controller.Interleaving
import CoapEap.Controller.Locks
import CoapEap.Controller.Deadlock
import CoapEap.Controller.Soundness
import CoapEap.Controller.Totality
import CoapEap.Controller.Refusal
import CoapEap.Controller.Forwarding
import CoapEap.Controller.Requests
import CoapEap.Controller.Waiting
import CoapEap.Controller.RadiusExchange
import CoapEap.Controller.AccessRequests
import CoapEap.Controller.KeyDelivery
import CoapEap.Controller.Bystanders
import CoapEap.Controller.Openings
import CoapEap.Controller.Robustness
import CoapEap.Controller.Isolation
import CoapEap.Controller.Eax
import CoapEap.Controller.EaxMode
import CoapEap.Controller.Pana
import CoapEap.Controller.InsertAvps
import CoapEap.Controller.AvpAgreement
import CoapEap.Controller.MacBuffer
import CoapEap.Controller.KeyId
import CoapEap.Controller.PrfPlus
import CoapEap.Controller.AvpWalk
import CoapEap.Device.ErCoap
import CoapEap.Device.Codec
import CoapEap.Device.Hateoas
import CoapEap.Device.Responses
import CoapEap.Device.Duplicates
import CoapEap.Hop
import CoapEap.Replies
