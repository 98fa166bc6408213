import Mathlib.Data.Rat.Floor
import Goby.Multimaps

/-! The records of `queue.proto`, `modem_message.proto`, `manipulator.proto`,
`network_ack.proto` and `dccl.proto`, with the fields that the modelled functions
read or write. A field whose presence the code tests is an `Option`; a field the
code only reads through its accessor carries the declared default. Integers are
unbounded; where the C++ code depends on the width, the conversion is written out. -/

namespace Goby

abbrev Bytes := List UInt8

/-- Destination that every node listens to. -/
def broadcastId : ℤ := 0

/-- Destination left open for the data provider. -/
def queryDestinationId : ℤ := -1

def querySourceId : ℤ := -1

def toUnsigned (v : ℤ) : ℕ := (v % 2 ^ 32).toNat

def toInt (v : ℤ) : ℤ := v.bmod (2 ^ 32)

def truncate (x : ℚ) : ℤ := if x < 0 then ⌈x⌉ else ⌊x⌋

def sizeSub (a b : ℕ) : ℕ := (a + (2 ^ 64 - b % 2 ^ 64)) % 2 ^ 64

inductive Manipulator where
  | noManip | noQueue | noDequeue | loopback | onDemand | loopbackAsSent | promiscuous
  deriving DecidableEq, Repr

inductive RoleType where
  | sourceId | destinationId | timestamp
  deriving DecidableEq, Repr

def RoleType.name : RoleType → String
  | .sourceId => "SOURCE_ID"
  | .destinationId => "DESTINATION_ID"
  | .timestamp => "TIMESTAMP"

inductive RoleSetting where
  | static | fieldValue
  deriving DecidableEq, Repr

structure Role where
  type : RoleType
  setting : RoleSetting := .fieldValue
  field : String := ""
  staticValue : Option ℤ := none

structure QueuedMessageEntry where
  protobufName : String
  ack : Bool := true
  blackoutTime : ℕ := 0
  maxQueue : ℕ := 100
  newestFirst : Bool := true
  ttl : ℤ := 1800
  valueBase : ℚ := 1
  manipulator : List Manipulator := []
  role : List Role := []

structure DcclEncryptRule where
  id : ℤ := 0
  cryptoPassphrase : String

structure QueueManagerConfig where
  modemId : Option ℤ := none
  messageEntry : List QueuedMessageEntry := []
  onDemandSkewSeconds : Option ℚ := none
  minimumAckWaitSeconds : Option ℚ := none
  skipDecoding : Option Bool := none
  makeNetworkAckForSrcId : List ℤ := []
  routeForAdditionalModemId : List ℤ := []
  encryptRule : List DcclEncryptRule := []

/-- `MergeFrom`: set singular fields replace, repeated fields append. -/
def QueueManagerConfig.mergeFrom (a b : QueueManagerConfig) : QueueManagerConfig where
  modemId := b.modemId <|> a.modemId
  messageEntry := a.messageEntry ++ b.messageEntry
  onDemandSkewSeconds := b.onDemandSkewSeconds <|> a.onDemandSkewSeconds
  minimumAckWaitSeconds := b.minimumAckWaitSeconds <|> a.minimumAckWaitSeconds
  skipDecoding := b.skipDecoding <|> a.skipDecoding
  makeNetworkAckForSrcId := a.makeNetworkAckForSrcId ++ b.makeNetworkAckForSrcId
  routeForAdditionalModemId := a.routeForAdditionalModemId ++ b.routeForAdditionalModemId
  encryptRule := a.encryptRule ++ b.encryptRule

structure QueuedMessageMeta where
  nonRepeatedSize : Option ℕ := none
  ackRequested : Option Bool := none
  src : Option ℤ := none
  dest : Option ℤ := none
  time : Option ℕ := none
  lastSentTime : Option ℕ := none
  encodedMessage : Option Bytes := none
  deriving DecidableEq

namespace QueuedMessageMeta

variable (m : QueuedMessageMeta)

def sizeD : ℕ := m.nonRepeatedSize.getD 0
def ackRequestedD : Bool := m.ackRequested.getD false
def srcD : ℤ := m.src.getD 0
def destD : ℤ := m.dest.getD 0
def timeD : ℕ := m.time.getD 0
def lastSentTimeD : ℕ := m.lastSentTime.getD 0

end QueuedMessageMeta

inductive TransmissionType where
  | unknown | data | ack | driverSpecific
  deriving DecidableEq, Repr

structure ModemTransmission where
  src : ℤ := -1
  dest : Option ℤ := none
  time : Option ℕ := none
  type : TransmissionType := .unknown
  maxNumFrames : ℕ := 1
  maxFrameBytes : Option ℕ := none
  ackRequested : Option Bool := none
  frame : List Bytes := []
  frameStart : ℕ := 0
  ackedFrame : List ℤ := []
  slotSeconds : ℚ := 10
  alwaysInitiate : Bool := false
  slotIndex : Option ℤ := none
  deriving DecidableEq

namespace ModemTransmission

def destD (m : ModemTransmission) : ℤ := m.dest.getD (-1)
def maxFrameBytesD (m : ModemTransmission) : ℕ := m.maxFrameBytes.getD 0
def ackRequestedD (m : ModemTransmission) : Bool := m.ackRequested.getD true

end ModemTransmission

inductive AckType where
  | ack | expire
  deriving DecidableEq, Repr

structure NetworkAck where
  messageSrc : ℤ
  messageDest : ℤ
  messageTime : ℕ
  messageDcclId : ℕ
  ackSrc : ℤ
  ackType : AckType
  deriving DecidableEq

structure DcclConfig where
  cryptoPassphrase : Option String := none
  skipCryptoForId : List ℕ := []
  idCodec : Option String := none
  deriving DecidableEq

namespace DcclConfig

def idCodecD (c : DcclConfig) : String := c.idCodec.getD ""

def mergeFrom (a b : DcclConfig) : DcclConfig where
  cryptoPassphrase := b.cryptoPassphrase <|> a.cryptoPassphrase
  skipCryptoForId := a.skipCryptoForId ++ b.skipCryptoForId
  idCodec := b.idCodec <|> a.idCodec

end DcclConfig

/-- What ends a call early: an exception of the C++ code, a step whose behaviour C++
leaves undefined, or a loop cut off by the bound on its number of rounds. -/
inductive Failure where
  | queue (what : String)
  | dccl (what : String)
  | outOfRange
  | undefined
  | fuel
  deriving DecidableEq, Repr

/-- What `dccl::Codec` reads when it encodes: the identifier codec, and the passphrase
with the message identifiers that are left unencrypted. -/
structure CodecSettings where
  idCodec : String
  crypto : Option (String × List ℕ) := none
  deriving DecidableEq

/-- A value of `boost::any` as returned by field reflection. -/
inductive FieldValue (Msg : Type) where
  | int32 (v : ℤ)
  | int64 (v : ℤ)
  | uint32 (v : ℕ)
  | uint64 (v : ℕ)
  | double (v : ℚ)
  | string (v : String)
  | message (m : Msg)
  | other (typeName : String)

structure FieldDescriptor where
  name : String
  isRepeated : Bool
  isMessage : Bool

/-- Protocol buffer reflection and the DCCL library, over the message descriptors
`Desc` and messages `Msg` of an application. -/
structure Library (Desc Msg : Type) where
  descriptor : Msg → Desc
  fullName : Desc → String
  id : Desc → ℕ
  findDescriptor : String → Option Desc
  newMessage : Desc → Msg
  isInitialized : Msg → Bool
  findFieldByName : Desc → String → Option FieldDescriptor
  getValue : FieldDescriptor → Msg → Option (FieldValue Msg)
  typeName : FieldValue Msg → String
  timeFromString : String → ℕ
  networkAck : NetworkAck → Msg
  load : CodecSettings → Desc → Except String Unit
  size : CodecSettings → Msg → Except String ℕ
  encode : CodecSettings → Msg → Bool → Except String Bytes
  decode : CodecSettings → Bytes → Bool → Except String Msg

/-! A small application with one message type beside `NetworkAck`, for evaluating the
model: a header of three bytes is followed by a body byte, which encryption shifts by
the length of the passphrase. -/

inductive SampleDesc where
  | status | networkAck
  deriving DecidableEq

structure SampleMsg where
  desc : SampleDesc := .status
  src : ℤ := 0
  dest : ℤ := 0
  body : UInt8 := 0
  deriving DecidableEq

def SampleDesc.id : SampleDesc → ℕ
  | .status => 1
  | .networkAck => 6

def sampleKey (s : CodecSettings) : UInt8 :=
  (s.crypto.map (fun c => UInt8.ofNat c.1.length)).getD 0

def sampleHeader (m : SampleMsg) : Bytes :=
  [UInt8.ofNat m.desc.id, UInt8.ofNat m.src.toNat, UInt8.ofNat m.dest.toNat]

def sampleLibrary : Library SampleDesc SampleMsg where
  descriptor m := m.desc
  fullName
    | .status => "Status"
    | .networkAck => "goby.acomms.protobuf.NetworkAck"
  id := SampleDesc.id
  findDescriptor name :=
    if name = "Status" then some .status
    else if name = "goby.acomms.protobuf.NetworkAck" then some .networkAck else none
  newMessage d := { desc := d }
  isInitialized _ := true
  findFieldByName _ name :=
    if name = "src" ∨ name = "dest" then some ⟨name, false, false⟩ else none
  getValue f m := some (.int32 (if f.name = "src" then m.src else m.dest))
  typeName _ := "i"
  timeFromString _ := 0
  networkAck a := { desc := .networkAck, src := a.messageSrc, dest := a.messageDest }
  load _ _ := .ok ()
  size _ _ := .ok 4
  encode s m headerOnly :=
    .ok (sampleHeader m ++ if headerOnly then [] else [m.body + sampleKey s])
  decode s b headerOnly := match b with
    | i :: src :: dest :: rest =>
        if i = 1 then match headerOnly, rest with
          | true, _ => .ok { src := src.toNat, dest := dest.toNat }
          | false, v :: _ => .ok { src := src.toNat, dest := dest.toNat, body := v - sampleKey s }
          | false, [] => .error "message too short"
        else .error "unknown message id"
    | _ => .error "message too short"

end Goby
