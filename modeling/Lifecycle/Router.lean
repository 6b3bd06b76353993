import Lifecycle.Wire

/-! The way from a frame to a command and from a result to a reply. A codec turns frames into
envelopes and replies into frames; the router asks, in this order, that the frame can be decoded,
that its label names a command, and that its arguments form a document. -/

namespace Lifecycle

structure Codec where
  decode : Bytes → Except String Envelope
  encode : Reply → Except String Bytes

def Codec.json : Codec where
  decode frame := (Envelope.reader.decode frame).mapError Fault.message
  encode reply := .ok reply.toJson.bytes

def Codec.withoutReplies (c : Codec) (text : String) : Codec := { c with encode _ := .error text }

inductive RouterError
  | decode (text : String)
  | unknownCommand (e : Command.Unknown)
  | invalidArgs (e : Args.Invalid)
  | encode (text : String)
  deriving DecidableEq, Repr

def RouterError.message : RouterError → String
  | decode text => s!"decode: {text}"
  | unknownCommand e => e.message
  | invalidArgs e => e.message
  | encode text => s!"encode: {text}"

namespace Router

def accept (c : Codec) (frame : Bytes) : Except RouterError (String × Request) := do
  let e ← (c.decode frame).mapError .decode
  let command ← (Command.parse e.cmd).mapError .unknownCommand
  let args ← (Args.ofJson e.args).mapError .invalidArgs
  return (e.id, { command, args })

def reply (c : Codec) (id : String) (r : Result) : Except RouterError Bytes :=
  (c.encode ⟨id, r⟩).mapError .encode

end Router

end Lifecycle
