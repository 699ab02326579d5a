import PushGate.Authentication
import PushGate.Binary64
import PushGate.Decimal
import PushGate.Dispatcher.Basic
import PushGate.Dispatcher.Handler
import PushGate.Dispatcher.Handling
import PushGate.Dispatcher.Record
import PushGate.Exchange.Intake
import PushGate.Exchange.Request
import PushGate.Exchange.Response
import PushGate.Gateway
import PushGate.Log
import PushGate.Markup.Event
import PushGate.Markup.Reader
import PushGate.Markup.Reference
import PushGate.Message.Basic
import PushGate.Message.Decoder
import PushGate.Message.Kind
import PushGate.Message.Route
import PushGate.Message.Tag
import PushGate.PathPattern
import PushGate.Pool.Basic
import PushGate.Pool.OfMessages
import PushGate.Pool.Session
import PushGate.Proofs.Authentication.Signed
import PushGate.Proofs.Authentication.Verdict
import PushGate.Proofs.Decimal.Spelling
import PushGate.Proofs.Decoder.Continuation
import PushGate.Proofs.Decoder.EmptyElement
import PushGate.Proofs.Decoder.Hearing
import PushGate.Proofs.Decoder.Insertion
import PushGate.Proofs.Decoder.Integer
import PushGate.Proofs.Decoder.Invariant
import PushGate.Proofs.Decoder.Loop
import PushGate.Proofs.Decoder.Overwrite
import PushGate.Proofs.Decoder.Padding
import PushGate.Proofs.Decoder.Position
import PushGate.Proofs.Decoder.Root
import PushGate.Proofs.Decoder.Settling
import PushGate.Proofs.Decoder.Turns
import PushGate.Proofs.Dispatcher.Admission
import PushGate.Proofs.Dispatcher.Balance
import PushGate.Proofs.Dispatcher.Calls
import PushGate.Proofs.Dispatcher.Chunking
import PushGate.Proofs.Dispatcher.Course
import PushGate.Proofs.Dispatcher.History
import PushGate.Proofs.Dispatcher.Registration
import PushGate.Proofs.Dispatcher.Report
import PushGate.Proofs.Dispatcher.Routing
import PushGate.Proofs.Dispatcher.Secrecy
import PushGate.Proofs.Dispatcher.Stages
import PushGate.Proofs.Gateway.Access
import PushGate.Proofs.Gateway.Handshake
import PushGate.Proofs.Gateway.Relay
import PushGate.Proofs.Markup.Extent
import PushGate.Proofs.Markup.Nesting
import PushGate.Proofs.Markup.Passage
import PushGate.Proofs.Markup.Pieces
import PushGate.Proofs.Markup.Resolution
import PushGate.Proofs.Markup.Scan
import PushGate.Proofs.Markup.Unclosed
import PushGate.Proofs.Message.Value
import PushGate.Proofs.Pool.Conservation
import PushGate.Proofs.Pool.Elasticity
import PushGate.Proofs.Pool.Isolation
import PushGate.Proofs.Push.Basic
import PushGate.Proofs.Push.Content
import PushGate.Proofs.Push.Reading
import PushGate.Proofs.Push.References
import PushGate.Proofs.Push.RoundTrip
import PushGate.Proofs.Settings.Numbers
import PushGate.Proofs.Settings.Projection
import PushGate.Proofs.Signature.Acceptance
import PushGate.Proofs.Signature.Tampering
import PushGate.Proofs.Utf8.Strict
import PushGate.Query
import PushGate.Rejection
import PushGate.Settings
import PushGate.Sha1
import PushGate.Signature
import PushGate.Text.Blank
import PushGate.Text.Hexadecimal
import PushGate.Text.Quoted
import PushGate.Text.Unprintable
import PushGate.Utf8
