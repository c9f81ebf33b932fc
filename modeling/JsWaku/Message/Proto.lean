import JsWaku.Js.Bytes

/-!
# JsWaku.Message.Proto

The protobuf object `proto.WakuMessage` and its codec. `timestamp` is a protobuf `double`, kept as
its IEEE-754 bit pattern; `version` is a `uint32`. Every field is optional on the wire.

The codec itself runs on the `protobufjs` reader and writer, so it is a parameter here.
-/

namespace JsWaku
namespace Proto

open Js

abbrev Double := UInt64

structure WakuMessage where
  payload : Option Bytes
  contentTopic : Option String
  version : Option UInt32
  timestamp : Option Double
  deriving DecidableEq, Repr

/-- `proto.WakuMessage.encode(..).finish()` and `proto.WakuMessage.decode(Reader.create(..))` -/
structure Codec where
  encode : WakuMessage → Bytes
  decode : Bytes → Except Thrown WakuMessage

/-- Decoding undoes encoding, for the message at hand. -/
def Codec.Undoes (c : Codec) (m : WakuMessage) : Prop := c.decode (c.encode m) = .ok m

end Proto
end JsWaku
