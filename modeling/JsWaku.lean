import JsWaku.Js.Protobuf
import JsWaku.Js.Read
import JsWaku.Js.Fields
import JsWaku.Lib.Chunks
import JsWaku.Lib.Ledger
import JsWaku.Lib.Loop
import JsWaku.Message.Decoder
import JsWaku.Message.RoundTrip
import JsWaku.Message.Accepting
import JsWaku.Message.Text
import JsWaku.Message.Padding
import JsWaku.Store.Transport
import JsWaku.Store.Retrieval
import JsWaku.Store.Order
import JsWaku.Store.Capped
import JsWaku.Store.Cycle
import JsWaku.Relay.Reaching
import JsWaku.Relay.DecryptionKeys
import JsWaku.Relay.Registry
import JsWaku.Relay.Cut
import JsWaku.Relay.Selection
import JsWaku.Node.Create
import JsWaku.Node.KeepAlive
import JsWaku.Node.Pings
import JsWaku.EqualByteArrays
import JsWaku.Discovery
import JsWaku.Relay.HeartbeatTimer
import JsWaku.Store.Errors
import JsWaku.Relay.Gossip
import JsWaku.Relay.AtRest
import JsWaku.Relay.Bounds
import JsWaku.Relay.Spread
import JsWaku.Relay.Exchange
import JsWaku.Relay.Delivery
import JsWaku.Relay.Network
import JsWaku.Relay.Apart
import JsWaku.Relay.Broadcast
import JsWaku.Relay.Isolated
import JsWaku.Lib.Cursor
import JsWaku.Store.Growing
import JsWaku.Store.Churning
import JsWaku.LightPush.Transport
