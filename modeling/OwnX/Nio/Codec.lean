import Mathlib.Algebra.Group.Nat.Defs
import OwnX.Foundations.Decoder

/-!
# The default frame codec (`nio/codec.go`)

A frame is a big-endian `uint32` length, a flag byte and `length - 1` body bytes. `Decode` works on
the unread bytes of the connection and on the message it filled in so far; a message whose length is
`0` is one whose header has not been read yet.

The body conversion rests on two packages outside the repository, `encoding/json` and
`compress/gzip`; they are the parameters collected in `Packages`.
-/

namespace OwnX.Nio

/-- A Go byte slice. -/
abbrev Bytes := List UInt8

/-- The body of a message to be sent, as `ToByte` distinguishes it. -/
inductive Body (V : Type) where
  /-- A Go string. -/
  | string (s : Bytes)
  /-- A byte slice. -/
  | bytes (b : Bytes)
  /-- Any other value; it is sent as JSON. -/
  | value (v : V)
  deriving DecidableEq, Repr

/-- What the codec uses of `encoding/json` and `compress/gzip`. -/
structure Packages (V : Type) where
  /-- `json.Marshal`; `none` when it fails. -/
  marshal : V → Option Bytes
  /-- The bytes `gzip.Writer` produces for its input. -/
  compress : Bytes → Bytes
  /-- The bytes `gzip.NewReader` and `io.ReadAll` produce; `none` when the header is refused. -/
  decompress : Bytes → Option Bytes

/-- A message being received (`Msg`); `data` is `none` for a nil slice. -/
structure Msg where
  flag : UInt8 := 0
  length : UInt32 := 0
  data : Option Bytes := none
  deriving DecidableEq, Repr

/-- `defaultCodec`. -/
structure DefaultCodec (V : Type) where
  packages : Packages V
  gzip : Bool

variable {V : Type}

/-- `ToByte`: a failed `Marshal` leaves a nil slice. -/
def toByte (lib : Packages V) : Body V → Bytes
  | .string s => s
  | .bytes b => b
  | .value v => (lib.marshal v).getD []

/-- `Gzip`. Its writes go to a `bytes.Buffer`, which does not fail. -/
def gzip (lib : Packages V) (data : Bytes) : Bytes :=
  if data.length = 0 then [] else lib.compress data

/-- `UnGzip`, without the error that `Decode` drops. -/
def unGzip (lib : Packages V) (data : Option Bytes) : Option Bytes :=
  if (data.getD []).length = 0 then some [] else lib.decompress (data.getD [])

/-- `binary.Write` of a `uint32` in big-endian order. -/
def putUint32 (n : UInt32) : Bytes :=
  [UInt8.ofNat (n.toNat / 2 ^ 24), UInt8.ofNat (n.toNat / 2 ^ 16), UInt8.ofNat (n.toNat / 2 ^ 8),
    UInt8.ofNat n.toNat]

/-- `binary.Read` of a `uint32` in big-endian order. -/
def getUint32 (bs : Bytes) : UInt32 :=
  UInt32.ofNat (bs.foldl (fun n b => 256 * n + b.toNat) 0)

/-- The body bytes of a frame: none for a nil body. -/
def bodyBytes (c : DefaultCodec V) : Option (Body V) → Bytes
  | none => []
  | some body =>
    let b := toByte c.packages body
    if c.gzip then Nio.gzip c.packages b else b

/-- `Encode` of the message `CreateMsg flag body`. -/
def encode (c : DefaultCodec V) (flag : UInt8) (body : Option (Body V)) : Bytes :=
  let b := bodyBytes c body
  let length := match body with
    | none => 1
    | some _ => UInt32.ofNat (b.length + 1)
  putUint32 length ++ [flag] ++ b

/-- The end of `Decode`: the data of a complete message is unpacked. -/
def decodeData (c : DefaultCodec V) (msg : Msg) (reader : Bytes) : Bool × Msg × Bytes :=
  if c.gzip then (true, { msg with data := unGzip c.packages msg.data }, reader)
  else (true, msg, reader)

/-- `Decode` from the point where the header of `msg` is known. -/
def decodeBody (c : DefaultCodec V) (msg : Msg) (reader : Bytes) : Bool × Msg × Bytes :=
  if msg.length = 1 then (true, msg, reader)
  else if msg.length > 1 ∧ msg.data = none then
    if (msg.length - 1).toNat ≤ reader.length then
      decodeData c { msg with data := some (reader.take (msg.length - 1).toNat) }
        (reader.drop (msg.length - 1).toNat)
    else (false, msg, reader)
  else decodeData c msg reader

/-- `Decode`. The header is read only when its five bytes are there at once. -/
def decode (c : DefaultCodec V) (msg : Msg) (reader : Bytes) : Bool × Msg × Bytes :=
  if msg.length = 0 then
    if 5 ≤ reader.length then
      decodeBody c { msg with length := getUint32 (reader.take 4), flag := reader.getD 4 0 }
        (reader.drop 5)
    else (false, msg, reader)
  else decodeBody c msg reader

/-- The codec as an incremental decoder; `&Msg{}` is the fresh message. -/
def DefaultCodec.decoder (c : DefaultCodec V) : Decoder Msg UInt8 where
  fresh := {}
  decode := decode c

end OwnX.Nio
