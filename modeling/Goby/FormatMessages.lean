import Goby.LexicalCasts
import Mathlib.Data.Rat.Defs

/-! A message has a list of values for each field number, of which a singular field uses the first.
Values are printed and read by the type of their field; the protocol buffer library encodes
whole messages, and floating-point numbers are left to it. Where the library would abort, the
failure is `fatal`. -/

namespace Goby.Moos.Format

/-- The types of fields; message types are named by `ι`. -/
inductive FieldType (ι : Type) where
  | int32 | int64 | uint32 | uint64
  | bool | string | bytes | float | double
  | enum (names : List Bytes)
  | message (type : ι)

/-- A real number may be the quiet NaN, and an enumerator is its name. -/
inductive Value where
  | number (z : ℤ)
  | flag (b : Bool)
  | text (s : Bytes)
  | real (x : Option ℚ)
  | enumerator (name : Bytes)
  | message (fields : ℕ → List Value)

abbrev Message := ℕ → List Value

def emptyMessage : Message := fun _ => []

def Value.fields : Value → Message
  | .message fields => fields
  | _ => emptyMessage

structure FieldDescriptor (ι : Type) where
  number : ℕ
  repeated : Bool := false
  type : FieldType ι
  defaultValue : Value

/-- What is read where nothing was set, and added to fill up a list. -/
def FieldDescriptor.default {ι : Type} (fd : FieldDescriptor ι) : Value :=
  match fd.type with
  | .message _ => .message emptyMessage
  | _ => fd.defaultValue

/-- The protocol buffer library, with the fields of a type in the order of their declaration. A
message is cleared before it is parsed, and `ParseFromString` leaves what it has got to. -/
structure Library (ι : Type) where
  fullName : ι → Bytes
  descriptor : ι → List (FieldDescriptor ι)
  serializeAsString : ι → Message → Bytes
  parseFromString : ι → Bytes → Message
  /-- By the number of digits. -/
  printReal : ℕ → Option ℚ → Bytes
  readReal : ℕ → Bytes → Option ℚ

inductive Failure where
  | runtimeError (text : Bytes)
  | badFormatString
  | fatal
deriving DecidableEq

variable {ι : Type} (lib : Library ι)

def findFieldByNumber (desc : List (FieldDescriptor ι)) (number : ℤ) : Option (FieldDescriptor ι) :=
  desc.find? fun fd => (fd.number : ℤ) = number

def getSingular (fd : FieldDescriptor ι) (m : Message) : Value := (m fd.number).head?.getD fd.default

def floatDigits : ℕ := 6

def doubleDigits : ℕ := 15

def boolText (b : Bool) : Bytes := if b then ascii "true" else ascii "false"

/-- Nothing is printed for a value that is not of the type. -/
def printValue : FieldType ι → Value → Bytes
  | .int32, .number z => signedNumeral z
  | .int64, .number z => signedNumeral z
  | .uint32, .number z => signedNumeral z
  | .uint64, .number z => signedNumeral z
  | .bool, .flag b => boolText b
  | .string, .text s => s
  | .bytes, .text s => hexEncode s false
  | .float, .real x => lib.printReal floatDigits x
  | .double, .real x => lib.printReal doubleDigits x
  | .enum _, .enumerator name => name
  | .message type, .message m => hexEncode (lib.serializeAsString type m) false
  | _, _ => []

/-- What is printed for an element beyond the end; there is no such message. -/
def missingElement (fd : FieldDescriptor ι) : Except Failure Value :=
  match fd.type with
  | .int32 => .ok (.number (2 ^ 31 - 1))
  | .int64 => .ok (.number (2 ^ 63 - 1))
  | .uint32 => .ok (.number (2 ^ 32 - 1))
  | .uint64 => .ok (.number (2 ^ 64 - 1))
  | .bool | .string | .bytes | .enum _ => .ok fd.defaultValue
  | .float | .double => .ok (.real none)
  | .message _ => .error .fatal

/-- `as` gives the largest value of the type for what is not a number. -/
def asSigned (width : ℕ) (s : Bytes) : ℤ := (lexicalCastSigned width s).getD (2 ^ (width - 1) - 1)

def asUnsigned (width : ℕ) (s : Bytes) : ℤ := (lexicalCastUnsignedOf width s).getD (2 ^ width - 1)

def asBool (s : Bytes) : Bool := iequals s (ascii "true") || iequals s (ascii "1")

/-- `FindValueByName` of the text as it is, in capital and in small letters. -/
def findEnumerator (names : List Bytes) (s : Bytes) : Option Bytes :=
  if names.contains s then some s
  else if names.contains (s.map toUpper) then some (s.map toUpper)
  else if names.contains (s.map toLower) then some (s.map toLower)
  else none

/-- The value to set, if any. Bytes are taken as they are. -/
def readValue : FieldType ι → Bytes → Option Value
  | .int32, s => some (.number (asSigned 32 s))
  | .int64, s => some (.number (asSigned 64 s))
  | .uint32, s => some (.number (asUnsigned 32 s))
  | .uint64, s => some (.number (asUnsigned 64 s))
  | .bool, s => some (.flag (asBool s))
  | .string, s => some (.text s)
  | .bytes, s => some (.text s)
  | .float, s => some (.real (lib.readReal floatDigits s))
  | .double, s => some (.real (lib.readReal doubleDigits s))
  | .enum names, s => (findEnumerator names s).map .enumerator
  | .message type, s => some (.message (lib.parseFromString type (hexDecode s)))

/-- The values of a type; a repeated field has an `int` for its size. -/
inductive Conforms : FieldType ι → Value → Prop
  | int32 {z : ℤ} (hlo : -2 ^ 31 ≤ z) (hhi : z < 2 ^ 31) : Conforms .int32 (.number z)
  | int64 {z : ℤ} (hlo : -2 ^ 63 ≤ z) (hhi : z < 2 ^ 63) : Conforms .int64 (.number z)
  | uint32 {z : ℤ} (hlo : 0 ≤ z) (hhi : z < 2 ^ 32) : Conforms .uint32 (.number z)
  | uint64 {z : ℤ} (hlo : 0 ≤ z) (hhi : z < 2 ^ 64) : Conforms .uint64 (.number z)
  | bool (b : Bool) : Conforms .bool (.flag b)
  | string (s : Bytes) : Conforms .string (.text s)
  | bytes (s : Bytes) : Conforms .bytes (.text s)
  | float (x : Option ℚ) : Conforms .float (.real x)
  | double (x : Option ℚ) : Conforms .double (.real x)
  | enum {names : List Bytes} {name : Bytes} (hname : name ∈ names) :
      Conforms (.enum names) (.enumerator name)
  | message {type : ι} {m : Message}
      (hvalues : ∀ fd ∈ lib.descriptor type, ∀ v ∈ m fd.number, Conforms fd.type v)
      (hsingular : ∀ fd ∈ lib.descriptor type, fd.repeated = false → (m fd.number).length ≤ 1)
      (hsize : ∀ number, (m number).length < 2 ^ 31) :
      Conforms (.message type) (.message m)

/-- The field numbers of a type are distinct and in the range that a protocol buffer allows. -/
structure ValidType (type : ι) : Prop where
  nodup : ((lib.descriptor type).map FieldDescriptor.number).Nodup
  pos : ∀ fd ∈ lib.descriptor type, 1 ≤ fd.number
  lt : ∀ fd ∈ lib.descriptor type, fd.number < 2 ^ 29
  default : ∀ fd ∈ lib.descriptor type, Conforms lib fd.type fd.default

variable {lib}

theorem Conforms.values {type : ι} {m : Message} (h : Conforms lib (.message type) (.message m)) :
    ∀ fd ∈ lib.descriptor type, ∀ v ∈ m fd.number, Conforms lib fd.type v := by
  cases h with
  | message hvalues hsingular hsize => exact hvalues

theorem Conforms.size {type : ι} {m : Message} (h : Conforms lib (.message type) (.message m))
    (number : ℕ) : (m number).length < 2 ^ 31 := by
  cases h with
  | message hvalues hsingular hsize => exact hsize number

theorem findFieldByNumber_eq_some {desc : List (FieldDescriptor ι)} {number : ℤ}
    {fd : FieldDescriptor ι} (h : findFieldByNumber desc number = some fd) :
    fd ∈ desc ∧ (fd.number : ℤ) = number := by
  refine ⟨List.mem_of_find?_eq_some h, ?_⟩
  simpa using List.find?_some h

/-- What is printed is read back, if the library reads back the messages that it has written;
bytes are not read back as they are printed. -/
theorem readValue_printValue {type : FieldType ι} {v : Value} (h : Conforms lib type v)
    (hreal : type ≠ .float ∧ type ≠ .double) (hbytes : type = .bytes → v = .text [])
    (hmessage : ∀ t m, type = .message t → v = .message m →
      lib.parseFromString t (lib.serializeAsString t m) = m) :
    readValue lib type (printValue lib type v) = some v := by
  cases h with
  | int32 hlo hhi =>
    have hcast := @lexicalCastSigned_signedNumeral 32 _ hlo hhi
    simp only [printValue, readValue, asSigned, hcast, Option.getD_some]
  | int64 hlo hhi =>
    have hcast := @lexicalCastSigned_signedNumeral 64 _ hlo hhi
    simp only [printValue, readValue, asSigned, hcast, Option.getD_some]
  | uint32 hlo hhi =>
    simp only [printValue, readValue, asUnsigned, lexicalCastUnsignedOf_signedNumeral hlo hhi,
      Option.getD_some]
  | uint64 hlo hhi =>
    simp only [printValue, readValue, asUnsigned, lexicalCastUnsignedOf_signedNumeral hlo hhi,
      Option.getD_some]
  | bool b => cases b <;> rfl
  | string s => rfl
  | bytes s =>
    obtain rfl := Value.text.inj (hbytes rfl)
    rfl
  | float x => exact absurd rfl hreal.1
  | double x => exact absurd rfl hreal.2
  | enum hname => simp [printValue, readValue, findEnumerator, hname]
  | message hvalues hsingular hsize =>
    simp [printValue, readValue, hexDecode_hexEncode, hmessage _ _ rfl rfl]

end Goby.Moos.Format
