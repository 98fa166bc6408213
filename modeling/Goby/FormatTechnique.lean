import Goby.FormatMessages
import Goby.MarkedText

/-! `TECHNIQUE_FORMAT` writes the fields of a message in the places of their specifiers: `%1%` is
field 1, `%1.2%` its element 2, and `%1:2%` field 2 of the embedded message 1. To write a message,
the specifiers of the latter two kinds are replaced by fresh numbers, and the format is given to
`boost::format` with one argument for every number. To read one, the format is gone through
character by character, and whatever is not part of a specifier is looked for in the string.
Algorithms and short names of enumerators are left out. -/

namespace Goby.Moos.Format

variable {ι : Type} (lib : Library ι) (repeatedDelimiter : Bytes)

def percent : UInt8 := 0x25

def colon : UInt8 := 0x3A

def dot : UInt8 := 0x2E

def marked (word : Bytes) : Bytes := percent :: (word ++ [percent])

/-- The field of an embedded message that a part of a specifier names, with its index. -/
def submessageField (specifier requirement : Bytes) (type : ι) (part : Bytes) :
    Except Failure (FieldDescriptor ι × ι × ℤ) :=
  let fieldAndIndex := part.splitOn dot
  let noMessage := .error (.runtimeError (ascii "Invalid ':' syntax given for format: " ++ specifier ++
    ascii ". All field indices except the last must be " ++ requirement))
  match findFieldByNumber (lib.descriptor type) (asInt (fieldAndIndex.headD [])) with
  | none => noMessage
  | some fd =>
    match fd.type with
    | .message subtype =>
      if fd.repeated = true ∧ fieldAndIndex.length ≠ 2 then
        .error (.runtimeError (ascii "Invalid '.' syntax given for format: " ++ specifier ++
          ascii (". Repeated message, but no valid index given. E.g., use '3.4' for index 4 of " ++
            "field 3.")))
      else .ok (fd, subtype, asInt (fieldAndIndex.getD 1 []))
    | _ => noMessage

def elementAt (values : List Value) (index : ℤ) : Option Value :=
  if index < 0 then none else values[index.toNat]?

/-- The embedded message that all parts but the last lead to. -/
def getSubmessage (specifier : Bytes) : List Bytes → ι → Message → Except Failure (ι × Message)
  | [], type, m => .ok (type, m)
  | part :: parts, type, m => do
    let (fd, subtype, index) ← submessageField lib specifier (ascii "embedded messages") type part
    if fd.repeated then
      match elementAt (m fd.number) index with
      | none => .error .fatal
      | some v => getSubmessage specifier parts subtype v.fields
    else getSubmessage specifier parts subtype (getSingular fd m).fields

/-- The loop begins with the second field. -/
def maxFieldNumber (desc : List (FieldDescriptor ι)) : ℕ :=
  desc.tail.foldl (fun n fd => if n < fd.number then fd.number else n) 1

/-- `([0-9\.]+:)+[0-9\.]+` -/
def nestedShape (word : Bytes) : Bool :=
  let parts := word.splitOn colon
  2 ≤ parts.length && parts.all fun part => part ≠ [] && part.all fun b => isDigit b || b = dot

/-- `[0-9]+\.[0-9]+` -/
def indexedShape (word : Bytes) : Bool :=
  match word.splitOn dot with
  | [field, index] => field ≠ [] && field.all isDigit && (index ≠ [] && index.all isDigit)
  | _ => false

structure RepeatedFieldKey where
  field : ℤ
  index : ℤ

/-- What has been done to a format; both lists have the fresh numbers in ascending order. -/
structure Renumbering where
  maxFieldNumber : ℕ
  format : Bytes
  modifiedValues : List (ℕ × Bytes) := []
  indexedRepeatedFields : List (ℕ × RepeatedFieldKey) := []

def Renumbering.replace (r : Renumbering) (word : Bytes) : Renumbering :=
  { r with
    maxFieldNumber := r.maxFieldNumber + 1
    format := MarkedText.replaceAll (marked word) (marked (numeral (r.maxFieldNumber + 1))) 0 r.format }

section Serialize

variable (inner : ι → Message → Bytes → Except Failure Bytes) (type : ι) (m : Message)

/-- The field of the embedded message is written by itself. -/
def renumberNested : List Bytes → Renumbering → Except Failure Renumbering
  | [], r => .ok r
  | word :: words, r => do
    let subfields := word.splitOn colon
    let (subtype, sub) ← getSubmessage lib word subfields.dropLast type m
    let value ← inner subtype sub (marked (subfields.getLastD []))
    renumberNested words { r.replace word with
      modifiedValues := r.modifiedValues ++ [(r.maxFieldNumber + 1, value)] }

def renumberIndexed : List Bytes → Renumbering → Renumbering
  | [], r => r
  | word :: words, r =>
    let fieldAndIndex := word.splitOn dot
    renumberIndexed words { r.replace word with
      indexedRepeatedFields := r.indexedRepeatedFields ++ [(r.maxFieldNumber + 1,
        { field := asInt (fieldAndIndex.headD [])
          index := asInt (fieldAndIndex.getD 1 []) })] }

def printField (fd : FieldDescriptor ι) (index : Option ℤ) : Except Failure Bytes :=
  if fd.repeated then
    match index with
    | none => .ok (repeatedDelimiter.intercalate ((m fd.number).map (printValue lib fd.type)))
    | some i =>
      match elementAt (m fd.number) i with
      | some v => .ok (printValue lib fd.type v)
      | none => (missingElement fd).map (printValue lib fd.type)
  else .ok (printValue lib fd.type (getSingular fd m))

def argument (r : Renumbering) (i : ℕ) : Except Failure Bytes :=
  let key := r.indexedRepeatedFields.lookup i
  match findFieldByNumber (lib.descriptor type) (key.elim (i : ℤ) RepeatedFieldKey.field) with
  | some fd => printField lib repeatedDelimiter m fd (key.map RepeatedFieldKey.index)
  | none => .ok ((r.modifiedValues.lookup i).getD (ascii "unknown"))

inductive FormatItem where
  | literal (b : UInt8)
  | argument (n : ℕ)

/-- The format as `boost::format` reads it; of its directives only `%n%` and `%%` are there. -/
def formatItems : Option Bytes → Bytes → Option (List FormatItem)
  | none, [] => some []
  | some _, [] => none
  | none, b :: s =>
    if b = percent then formatItems (some []) s else (formatItems none s).map (.literal b :: ·)
  | some digits, b :: s =>
    if b = percent then
      if digits = [] then (formatItems none s).map (.literal percent :: ·)
      else if digitsValue digits = 0 then none
      else (formatItems none s).map (.argument (digitsValue digits) :: ·)
    else if isDigit b then formatItems (some (digits ++ [b])) s
    else none

def FormatItem.fill (arguments : List Bytes) : FormatItem → Bytes
  | .literal b => [b]
  | .argument n => arguments.getD (n - 1) []

def serializeWith (format : Bytes) : Except Failure Bytes := do
  let r ← renumberNested lib inner type m (MarkedText.wordsOf percent nestedShape none format)
    { maxFieldNumber := maxFieldNumber (lib.descriptor type)
      format := format }
  let r := renumberIndexed (MarkedText.wordsOf percent indexedShape none r.format) r
  match formatItems none r.format with
  | none => .error .badFormatString
  | some items =>
    let arguments ← (List.range r.maxFieldNumber).mapM fun i =>
      argument lib repeatedDelimiter type m r (i + 1)
    .ok (items.flatMap (FormatItem.fill arguments))

end Serialize

/-- The last part of a specifier has no colon, so there is no call inside the inner one. -/
def serialize : ι → Message → Bytes → Except Failure Bytes :=
  serializeWith lib repeatedDelimiter (serializeWith lib repeatedDelimiter fun _ _ _ => .error .fatal)

def fillUp (fd : FieldDescriptor ι) (size : ℕ) (values : List Value) : List Value :=
  values ++ List.replicate (size - values.length) fd.default

/-- The embedded message that the parts lead to is changed, and made where there is none. -/
def updateSubmessage (specifier : Bytes) (change : ι → Message → Except Failure Message) :
    List Bytes → ι → Message → Except Failure Message
  | [], type, out => change type out
  | part :: parts, type, out => do
    let (fd, subtype, index) ←
      submessageField lib specifier (ascii "singular embedded messages") type part
    if fd.repeated then
      if index < 0 then .error .fatal
      else do
        let values := fillUp fd (index.toNat + 1) (out fd.number)
        let sub ← updateSubmessage specifier change parts subtype (values.getD index.toNat fd.default).fields
        .ok (Function.update out fd.number (values.set index.toNat (.message sub)))
    else do
      let sub ← updateSubmessage specifier change parts subtype (getSingular fd out).fields
      .ok (Function.update out fd.number [.message sub])

def FieldType.isEnum : FieldType ι → Bool
  | .enum _ => true
  | _ => false

/-- One value of a field is set or added. An enumerator is looked up with `GetEnum`, which is not
for repeated fields, and neither is `FieldSize` for singular ones. -/
def setValue (fd : FieldDescriptor ι) (index : Option ℤ) (part : Bytes) (out : Message) :
    Except Failure Message :=
  if index.isSome = true ∧ fd.repeated = false then .error .fatal
  else if fd.repeated = true ∧ fd.type.isEnum = true then .error .fatal
  else
    match readValue lib fd.type part, index with
    | none, _ => .ok out
    | some v, none =>
      .ok (Function.update out fd.number (if fd.repeated then out fd.number ++ [v] else [v]))
    | some v, some i =>
      if i < 0 then .error .fatal
      else .ok (Function.update out fd.number
        ((fillUp fd (i.toNat + 1) (out fd.number)).set i.toNat v))

def setValues (fd : FieldDescriptor ι) (index : Option ℤ) : List Bytes → Message → Except Failure Message
  | [], out => .ok out
  | part :: parts, out => do
    let out ← setValue lib fd index part out
    setValues fd index parts out

def parseField (type : ι) (specifier extract : Bytes) (out : Message) : Except Failure Message :=
  let fieldAndIndex := specifier.splitOn dot
  let isIndexed : Bool := fieldAndIndex.length = 2
  let valueIndex := if isIndexed then lexicalCastInt (fieldAndIndex.getD 1 []) else some 0
  match lexicalCastInt (fieldAndIndex.headD []), valueIndex with
  | some fieldIndex, some index =>
    match findFieldByNumber (lib.descriptor type) fieldIndex with
    | none => .error (.runtimeError (ascii "Bad field: " ++ specifier ++ ascii " not in message " ++
        lib.fullName type))
    | some fd =>
      let parts := if isIndexed = true ∨ fd.repeated = false then [extract]
        else extract.splitOnP (repeatedDelimiter.contains ·)
      setValues lib fd (if isIndexed then some index else none) parts out
  | _, _ => .error (.runtimeError (ascii "Bad specifier: " ++ specifier ++
      ascii ", must be an integer. For message: " ++ lib.fullName type))

section Parse

variable (inner : ι → Bytes → Bytes → Message → Except Failure Message) (type : ι)

def parseSpecifier (specifier extract : Bytes) (out : Message) : Except Failure Message :=
  if colon ∈ specifier then
    let subfields := specifier.splitOn colon
    let last := marked (subfields.getLastD [])
    updateSubmessage lib specifier (fun subtype sub => inner subtype extract last sub)
      subfields.dropLast type out
  else parseField lib repeatedDelimiter type specifier extract out

/-- The string up to the character, in either case; the whole if it is not there. -/
def extractUntil (b : UInt8) (s : Bytes) : Bytes := s.takeWhile fun c => toLower c ≠ b

/-- The string behind the character; the whole if it is not there, as `npos + 1` is zero. -/
def eat (b : UInt8) (s : Bytes) : Bytes :=
  match s.findIdx? fun c => toLower c = b with
  | none => s
  | some pos => s.drop (pos + 1)

/-- Behind the end of the format is a zero byte. The specifier that has been begun is in front. -/
def parseLoop : Option Bytes → Bytes → Bytes → Message → Except Failure Message
  | none, [], _, out => .ok out
  | some _, [], _, _ => .error .fatal
  | none, b :: format, s, out =>
    if b = percent then parseLoop (some []) format s out else parseLoop none format (eat b s) out
  | some specifier, b :: format, s, out =>
    if b = percent then do
      let out ← parseSpecifier lib repeatedDelimiter inner type specifier
        (extractUntil (format.headD 0) s) out
      parseLoop none format s out
    else parseLoop (some (specifier ++ [b])) format s out

def parseWith (s format : Bytes) (out : Message) : Except Failure Message :=
  parseLoop lib repeatedDelimiter inner type none (format.map toLower) s out

end Parse

def parse : ι → Bytes → Bytes → Message → Except Failure Message :=
  parseWith lib repeatedDelimiter (parseWith lib repeatedDelimiter fun _ _ _ _ => .error .fatal)

end Goby.Moos.Format
