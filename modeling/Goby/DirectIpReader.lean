import Goby.ExceptionState
import Goby.TransmissionMessages

/-! A DirectIP message is a header of three bytes, with the length of what follows, and a sequence
of information elements. The reader asks for the first bytes, and for the rest when it knows
the length; both reads store what they get from the start of one buffer, while the position from
which the elements are read goes on from the header. -/

namespace Goby

structure DirectIpPreHeader where
  protocolVer : ℤ
  overallLength : ℕ
  deriving DecidableEq

structure DirectIpMoHeader where
  iei : ℤ
  length : ℕ
  cdrReference : ℕ
  imei : Bytes
  sessionStatus : ℕ
  momsn : ℕ
  mtmsn : ℕ
  timeOfSession : ℕ
  deriving DecidableEq

structure DirectIpMoPayload where
  iei : ℤ
  length : ℕ
  payload : Bytes
  deriving DecidableEq

structure DirectIpMtConfirmation where
  iei : ℤ
  length : ℕ
  clientId : ℕ
  imei : Bytes
  autoRefId : ℕ
  status : ℤ
  deriving DecidableEq

structure SbdReader where
  pos : ℕ := 0
  preHeader : Option DirectIpPreHeader := none
  header : Option DirectIpMoHeader := none
  body : Option DirectIpMoPayload := none
  confirm : Option DirectIpMtConfirmation := none
  deriving DecidableEq

def preHeaderSize : ℕ := 3

/-- The size of the buffer, which is zero after the bytes that were stored. -/
def sbdBufferSize : ℕ := 2 ^ 16

abbrev SbdM := ReaderT Bytes (EStateM Failure SbdReader)

namespace SbdReader

def overallLength (s : SbdReader) : ℕ :=
  match s.preHeader with
  | some h => h.overallLength
  | none => 0

/-- `data_.at(pos_++)`. -/
def nextByte : SbdM UInt8 := fun data s =>
  if s.pos < sbdBufferSize then .ok (data.getD s.pos 0) { s with pos := s.pos + 1 }
  else .error .outOfRange { s with pos := s.pos + 1 }

/-- A `char`, which is signed. -/
def readByte : SbdM ℤ := do
  let a ← nextByte
  pure ((a.toNat : ℤ).bmod 256)

def readUint16 : SbdM ℕ := do
  let a ← nextByte
  let b ← nextByte
  pure (a.toNat * 256 + b.toNat)

def readInt16 : SbdM ℤ := do
  let i ← readUint16
  pure ((i : ℤ).bmod (2 ^ 16))

def readUint32 : SbdM ℕ := do
  let a ← readUint16
  let b ← readUint16
  pure (a * 2 ^ 16 + b)

/-- A string made from iterators, which are not checked. -/
def readString (n : ℕ) : SbdM Bytes := fun data s =>
  if s.pos + n ≤ sbdBufferSize then
    .ok ((List.range n).map fun i => data.getD (s.pos + i) 0) { s with pos := s.pos + n }
  else .error .undefined s

def readImei : SbdM Bytes := readString 15

def skip (n : ℕ) : SbdM Unit := modify fun s => { s with pos := s.pos + n }

def readHeader (iei : ℤ) (length : ℕ) : SbdM Unit := do
  let cdrReference ← readUint32
  let imei ← readImei
  let sessionStatus ← readByte
  let momsn ← readUint16
  let mtmsn ← readUint16
  let timeOfSession ← readUint32
  modify fun s => { s with
    header := some ⟨iei, length, cdrReference, imei, toUnsigned sessionStatus, momsn, mtmsn,
      timeOfSession⟩ }

def readPayload (iei : ℤ) (length : ℕ) : SbdM Unit := do
  let payload ← readString length
  modify fun s => { s with body := some ⟨iei, length, payload⟩ }

def readConfirmation (iei : ℤ) (length : ℕ) : SbdM Unit := do
  let clientId ← readUint32
  let imei ← readImei
  let autoRefId ← readUint32
  let status ← readInt16
  modify fun s => { s with confirm := some ⟨iei, length, clientId, imei, autoRefId, status⟩ }

/-- The case of a confirmation falls through to that of an element that is skipped. -/
def readContent (iei : ℤ) (length : ℕ) : SbdM Unit :=
  if iei = 0x01 then readHeader iei length
  else if iei = 0x02 then readPayload iei length
  else if iei = 0x44 then do
    readConfirmation iei length
    skip length
  else skip length

def readElement : SbdM Unit := do
  let iei ← readByte
  let length ← readUint16
  readContent iei length

/-- The handler calls itself while there are elements left, at most `fuel` times. -/
def ieHandler : ℕ → SbdM Unit
  | 0 => throw .fuel
  | fuel + 1 => do
      readElement
      let s ← get
      if s.pos < s.overallLength + preHeaderSize then ieHandler fuel else pure ()

def preHeaderHandler : SbdM Unit := do
  let protocolVer ← readByte
  let overallLength ← readUint16
  modify fun s => { s with preHeader := some ⟨protocolVer, overallLength⟩ }

/-- A read stores what it gets from the start of the buffer. -/
def store (received data : Bytes) : Bytes := received ++ data.drop received.length

/-- The message arrives in two reads, the first of which gets so many bytes; the second asks for
as many as are missing. Every element has at least three bytes. -/
def readMessage (msg : Bytes) (first : ℕ) : EStateM Failure SbdReader Unit := do
  preHeaderHandler (store (msg.take first) [])
  ieHandler (msg.length + 1) (store (msg.drop first) (store (msg.take first) []))

end SbdReader

structure InformationElement where
  iei : UInt8
  content : Bytes

def uint16Bytes (n : ℕ) : Bytes := [UInt8.ofNat (n / 256), UInt8.ofNat n]

def InformationElement.bytes (e : InformationElement) : Bytes :=
  e.iei :: uint16Bytes e.content.length ++ e.content

/-- A message that fits into the buffer. -/
structure DirectIpMessage where
  protocolVer : UInt8
  elements : List InformationElement
  fits : preHeaderSize + (elements.map InformationElement.bytes).flatten.length ≤ sbdBufferSize

namespace DirectIpMessage

variable (m : DirectIpMessage)

def content : Bytes := (m.elements.map InformationElement.bytes).flatten

def bytes : Bytes := m.protocolVer :: uint16Bytes m.content.length ++ m.content

theorem length_bytes : m.bytes.length = preHeaderSize + m.content.length := by
  simp [bytes, uint16Bytes, preHeaderSize]
  omega

end DirectIpMessage

end Goby
