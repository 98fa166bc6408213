import Goby.LexicalCasts
import Std.Data.TreeMap

/-! A translator entry says by which technique a message is made from MOOS variables, or written
to them. Between serialization and parsing the string passes through a MOOS variable, and a
string that can be cast to a double is published as that double. The techniques that print the
fields of a message one by one are left to the environment, as are the protocol buffer library
and Boost's casts. A `std::runtime_error` is its text. -/

namespace Goby.Moos

inductive Technique where
  | protobufTextFormat
  | protobufNativeEncoded
  | commaSeparatedKeyEqualsValuePairs
  | format
  | prefixedProtobufTextFormat
  | protobufNativeHex
  | prefixedProtobufNativeHex
  | prefixedProtobufNativeEncoded
  deriving DecidableEq

def Technique.name : Technique → String
  | .protobufTextFormat => "TECHNIQUE_PROTOBUF_TEXT_FORMAT"
  | .protobufNativeEncoded => "TECHNIQUE_PROTOBUF_NATIVE_ENCODED"
  | .commaSeparatedKeyEqualsValuePairs => "TECHNIQUE_COMMA_SEPARATED_KEY_EQUALS_VALUE_PAIRS"
  | .format => "TECHNIQUE_FORMAT"
  | .prefixedProtobufTextFormat => "TECHNIQUE_PREFIXED_PROTOBUF_TEXT_FORMAT"
  | .protobufNativeHex => "TECHNIQUE_PROTOBUF_NATIVE_HEX"
  | .prefixedProtobufNativeHex => "TECHNIQUE_PREFIXED_PROTOBUF_NATIVE_HEX"
  | .prefixedProtobufNativeEncoded => "TECHNIQUE_PREFIXED_PROTOBUF_NATIVE_ENCODED"

structure CreateAlgorithm where
  name : String
  primaryField : ℤ

structure PublishAlgorithm where
  name : String
  outputVirtualField : ℤ
  primaryField : ℤ
  referenceField : List ℤ := []

structure CreateParser where
  technique : Technique := .protobufTextFormat
  moosVar : Bytes
  format : Bytes := []
  repeatedDelimiter : Bytes := ascii ","
  algorithm : List CreateAlgorithm := []

structure PublishSerializer where
  technique : Technique := .protobufTextFormat
  moosVar : Bytes
  format : Bytes := []
  repeatedDelimiter : Bytes := ascii ","
  algorithm : List PublishAlgorithm := []

inductive TriggerType where
  | publish | time
  deriving DecidableEq

structure Trigger where
  type : TriggerType := .publish
  moosVar : Bytes := []

structure TranslatorEntry where
  protobufName : String
  trigger : Trigger := {}
  create : List CreateParser := []
  publish : List PublishSerializer := []
  useShortEnum : Bool := false

/-- Protocol buffer messages without floating-point fields. A parser writes into a message, and
returns it as it leaves it, whether or not it succeeds. -/
structure Protobuf (Msg : Type) where
  fullName : Msg → String
  /-- `DynamicProtobufManager::new_protobuf_message`; `none` for an unknown type. -/
  newMessage : String → Option Msg
  clear : Msg → Msg
  printText : Msg → Bytes
  parseText : Bytes → Msg → Msg
  serializeToString : Msg → Bytes
  parseFromString : Bytes → Msg → Msg

/-- `boost::lexical_cast` between strings and doubles. -/
structure LexicalCast (Double : Type) where
  toDouble : Bytes → Option Double
  ofDouble : Double → Bytes

/-- The techniques that print and parse the fields of a message one by one. -/
structure FieldTechniques (Msg : Type) where
  serializePairs : Msg → List PublishAlgorithm → Bool → Except Bytes Bytes
  parsePairs : Bytes → Msg → List CreateAlgorithm → Bool → Except Bytes Msg
  serializeFormat : Msg → List PublishAlgorithm → Bytes → Bytes → Bool → Except Bytes Bytes
  parseFormat : Bytes → Msg → Bytes → Bytes → List CreateAlgorithm → Bool → Except Bytes Msg

structure Environment (Msg Double : Type) extends
  Protobuf Msg, LexicalCast Double, FieldTechniques Msg

variable {Msg Double : Type} (env : Environment Msg Double) {m m₀ : Msg}

inductive MoosData (Double : Type) where
  | string (s : Bytes)
  | binary (s : Bytes)
  | double (x : Double)
  deriving DecidableEq

/-- A `CMOOSMsg` of type `MOOS_NOTIFY`. -/
structure MoosMsg (Double : Type) where
  key : Bytes
  data : MoosData Double
  sourceAux : Bytes := []
  deriving DecidableEq

/-- A multimap in the order of insertion: a search finds the first entry of a variable. -/
abbrev MoosVariables (Double : Type) := List (Bytes × MoosMsg Double)

def MoosVariables.find (vars : MoosVariables Double) (var : Bytes) : Option (MoosMsg Double) :=
  (List.find? (fun e => e.1 = var) vars).map Prod.snd

def makeMoosMsg (var str : Bytes) (isBinary : Bool) (technique : Technique) (pbName : String) :
    MoosMsg Double :=
  let sourceAux := ascii pbName ++ ascii ":" ++ ascii technique.name
  if isBinary then ⟨var, .binary str, sourceAux⟩
  else match env.toDouble str with
    | some x => ⟨var, .double x, []⟩
    | none => ⟨var, .string str, sourceAux⟩

/-- The techniques that a prefix can be put in front of. -/
inductive BaseTechnique where
  | textFormat | nativeEncoded | nativeHex
  deriving DecidableEq

def BaseTechnique.serialize (msg : Msg) : BaseTechnique → Bytes
  | .textFormat => env.printText msg
  | .nativeEncoded => env.serializeToString msg
  | .nativeHex => hexEncode (env.serializeToString msg) false

def BaseTechnique.parse (str : Bytes) (msg : Msg) : BaseTechnique → Msg
  | .textFormat => env.parseText str msg
  | .nativeEncoded => env.parseFromString str msg
  | .nativeHex => env.parseFromString (hexDecode str) msg

def magicProtobufHeader : Bytes := ascii "@PB"

def prefixSerialize (base : BaseTechnique) (msg : Msg) : Bytes :=
  magicProtobufHeader ++ ascii "[" ++ ascii (env.fullName msg) ++ ascii "] " ++ base.serialize env msg

def endBracket : UInt8 := 0x5D

/-- The name that stands between the brackets. Its length wraps around if the closing bracket
comes right after the header: then all that follows is taken for the name. -/
def prefixName (str : Bytes) (endBracketPos : ℕ) : Bytes :=
  if endBracketPos ≤ magicProtobufHeader.length then str.drop (magicProtobufHeader.length + 1)
  else (str.drop (magicProtobufHeader.length + 1)).take (endBracketPos - 1 - magicProtobufHeader.length)

def prefixParse (prefixTechnique : Technique) (base : BaseTechnique) (str : Bytes) (msg : Msg) :
    Except Bytes Msg :=
  if str.length > magicProtobufHeader.length ∧
      str.take magicProtobufHeader.length = magicProtobufHeader then
    match str.findIdx? (fun c => c = endBracket) with
    | none => .error (ascii "Incorrectly formatted protobuf message passed to MOOSTranslation<" ++
        ascii prefixTechnique.name ++ ascii ">::parse.")
    | some endBracketPos =>
      let name := prefixName str endBracketPos
      if name ≠ ascii (env.fullName msg) then
        .error (ascii "Wrong Protobuf type passed to MOOSTranslation<" ++ ascii prefixTechnique.name ++
          ascii ">::parse. Expected: " ++ ascii (env.fullName msg) ++ ascii ", received: " ++ name)
      else if str.length > endBracketPos + 2 then
        .ok (base.parse env (str.drop (endBracketPos + 2)) msg)
      else .ok (env.clear msg)
  else .ok (base.parse env str msg)

def serialize (technique : Technique) (msg : Msg) (algorithm : List PublishAlgorithm)
    (format repeatedDelimiter : Bytes) (useShortEnum : Bool) : Except Bytes Bytes :=
  match technique with
  | .protobufTextFormat => .ok (BaseTechnique.textFormat.serialize env msg)
  | .prefixedProtobufTextFormat => .ok (prefixSerialize env .textFormat msg)
  | .protobufNativeHex => .ok (BaseTechnique.nativeHex.serialize env msg)
  | .prefixedProtobufNativeHex => .ok (prefixSerialize env .nativeHex msg)
  | .protobufNativeEncoded => .ok (BaseTechnique.nativeEncoded.serialize env msg)
  | .prefixedProtobufNativeEncoded => .ok (prefixSerialize env .nativeEncoded msg)
  | .commaSeparatedKeyEqualsValuePairs => env.serializePairs msg algorithm useShortEnum
  | .format => env.serializeFormat msg algorithm format repeatedDelimiter useShortEnum

def parse (c : CreateParser) (useShortEnum : Bool) (str : Bytes) (msg : Msg) : Except Bytes Msg :=
  match c.technique with
  | .protobufTextFormat => .ok (BaseTechnique.textFormat.parse env str msg)
  | .prefixedProtobufTextFormat => prefixParse env .prefixedProtobufTextFormat .textFormat str msg
  | .protobufNativeHex => .ok (BaseTechnique.nativeHex.parse env str msg)
  | .prefixedProtobufNativeHex => prefixParse env .prefixedProtobufNativeHex .nativeHex str msg
  | .protobufNativeEncoded => .ok (BaseTechnique.nativeEncoded.parse env str msg)
  | .prefixedProtobufNativeEncoded =>
      prefixParse env .prefixedProtobufNativeEncoded .nativeEncoded str msg
  | .commaSeparatedKeyEqualsValuePairs => env.parsePairs str msg c.algorithm useShortEnum
  | .format => env.parseFormat str msg c.format c.repeatedDelimiter c.algorithm useShortEnum

def Technique.setsBinary : Technique → Bool
  | .protobufNativeEncoded | .prefixedProtobufNativeEncoded => true
  | _ => false

structure MoosTranslator where
  dictionary : Std.TreeMap String TranslatorEntry := ∅

namespace MoosTranslator

variable (t : MoosTranslator)

def findEntry (protobufName : String) : Except Bytes TranslatorEntry :=
  match t.dictionary[protobufName]? with
  | none => .error (ascii "No TranslatorEntry for Protobuf type: " ++ ascii protobufName)
  | some entry => .ok entry

/-- Rounds of the loop of `protobuf_to_moos`; once set, `is_binary` stays set. The variable's
name can be a format string itself. -/
def publishLoop (entry : TranslatorEntry) (msg : Msg) :
    List PublishSerializer → Bool → Except Bytes (MoosVariables Double)
  | [], _ => .ok []
  | p :: rest, isBinary => do
      let moosVar ← if p.technique = .format then
          env.serializeFormat msg p.algorithm p.moosVar p.repeatedDelimiter entry.useShortEnum
        else pure p.moosVar
      let str ← serialize env p.technique msg p.algorithm p.format p.repeatedDelimiter
        entry.useShortEnum
      let isBinary := isBinary || p.technique.setsBinary
      let vars ← publishLoop entry msg rest isBinary
      pure ((moosVar, makeMoosMsg env moosVar str isBinary p.technique (env.fullName msg)) :: vars)

def protobufToMoos (msg : Msg) : Except Bytes (MoosVariables Double) := do
  let entry ← t.findEntry (env.fullName msg)
  publishLoop env entry msg entry.publish false

/-- Rounds of the loop of `protobuf_to_inverse_moos`, which writes what the create entries
read. -/
def inverseLoop (entry : TranslatorEntry) (msg : Msg) :
    List CreateParser → Bool → Except Bytes (MoosVariables Double)
  | [], _ => .ok []
  | c :: rest, isBinary => do
      let str ← serialize env c.technique msg [] c.format c.repeatedDelimiter entry.useShortEnum
      let isBinary := isBinary || c.technique.setsBinary
      let vars ← inverseLoop entry msg rest isBinary
      pure ((c.moosVar, makeMoosMsg env c.moosVar str isBinary c.technique (env.fullName msg)) :: vars)

/-- The variable that triggers the entry is added, unless it is one of those written: then only
its time is set. -/
def addTrigger (trigger : Trigger) (vars : MoosVariables Double) : MoosVariables Double :=
  if trigger.type = .publish ∧ (vars.find trigger.moosVar).isNone then
    vars ++ [(trigger.moosVar, ⟨trigger.moosVar, .string [], []⟩)]
  else vars

def protobufToInverseMoos (msg : Msg) : Except Bytes (MoosVariables Double) := do
  let entry ← t.findEntry (env.fullName msg)
  let vars ← inverseLoop env entry msg entry.create false
  pure (addTrigger entry.trigger vars)

/-- The string that a variable is read as; a variable that is not there reads as empty. -/
def sourceString : Option (MoosMsg Double) → Bytes
  | none => []
  | some m => match m.data with
    | .string s | .binary s => s
    | .double x => env.ofDouble x

def createLoop (entry : TranslatorEntry) (vars : MoosVariables Double) :
    List CreateParser → Msg → Except Bytes Msg
  | [], msg => .ok msg
  | c :: rest, msg => do
      let msg ← parse env c entry.useShortEnum (sourceString env (vars.find c.moosVar)) msg
      createLoop entry vars rest msg

def moosToProtobuf (vars : MoosVariables Double) (protobufName : String) : Except Bytes Msg := do
  let entry ← t.findEntry protobufName
  match env.newMessage protobufName with
  | none => .error (ascii "Unknown Protobuf type: " ++ ascii protobufName ++
      ascii "; be sure it is compiled in or directly loaded into the goby::util::DynamicProtobufManager.")
  | some msg => createLoop env entry vars entry.create msg

/-- A message written to the variables of its create entries and made from them again. -/
def inverseRoundTrip (msg : Msg) : Except Bytes Msg := do
  let vars ← t.protobufToInverseMoos env msg
  t.moosToProtobuf env vars (env.fullName msg)

end MoosTranslator

section RoundTrip

/-- The parsers of the library undo its printers, and the empty string is parsed as the
cleared message; the name of a type is made of identifiers and dots. -/
structure Protobuf.Lawful (pb : Protobuf Msg) : Prop where
  bracket : ∀ m, endBracket ∉ ascii (pb.fullName m)
  newMessage : ∀ m, ∃ m₀, pb.newMessage (pb.fullName m) = some m₀ ∧ pb.fullName m₀ = pb.fullName m
  parseText_printText : ∀ m m₀, pb.fullName m₀ = pb.fullName m → pb.parseText (pb.printText m) m₀ = m
  parseFromString_serializeToString : ∀ m m₀, pb.fullName m₀ = pb.fullName m →
    pb.parseFromString (pb.serializeToString m) m₀ = m
  parseText_nil : ∀ m, pb.parseText [] m = pb.clear m
  parseFromString_nil : ∀ m, pb.parseFromString [] m = pb.clear m

variable {env} {c : CreateParser}

theorem BaseTechnique.parse_serialize (h : env.toProtobuf.Lawful) (base : BaseTechnique)
    (hname : env.fullName m₀ = env.fullName m) : base.parse env (base.serialize env m) m₀ = m := by
  cases base with
  | textFormat => exact h.parseText_printText m m₀ hname
  | nativeEncoded => exact h.parseFromString_serializeToString m m₀ hname
  | nativeHex =>
    rw [serialize, parse, hexDecode_hexEncode]
    exact h.parseFromString_serializeToString m m₀ hname

theorem BaseTechnique.parse_nil (h : env.toProtobuf.Lawful) (base : BaseTechnique) (m : Msg) :
    base.parse env [] m = env.clear m := by
  cases base with
  | textFormat => exact h.parseText_nil m
  | nativeEncoded | nativeHex => exact h.parseFromString_nil m

theorem prefixSerialize_eq (base : BaseTechnique) (m : Msg) :
    prefixSerialize env base m = ascii "@PB[" ++ (ascii (env.fullName m) ++
      endBracket :: 0x20 :: base.serialize env m) := by
  simp [prefixSerialize, magicProtobufHeader, endBracket, ascii]

theorem findIdx?_prefixSerialize (h : env.toProtobuf.Lawful) (base : BaseTechnique) (m : Msg) :
    (prefixSerialize env base m).findIdx? (fun c => c = endBracket) =
      some (4 + (ascii (env.fullName m)).length) := by
  have hfixed : (ascii "@PB[").findIdx? (fun c => c = endBracket) = none := by decide
  have hname : (ascii (env.fullName m)).findIdx? (fun c => c = endBracket) = none := by
    rw [List.findIdx?_eq_none_iff]
    intro c hc
    have hne : c ≠ endBracket := fun he => h.bracket m (he ▸ hc)
    simpa using hne
  have hlength : (ascii "@PB[").length = 4 := by decide
  rw [prefixSerialize_eq, List.findIdx?_append, hfixed, List.findIdx?_append, hname, hlength]
  simp [List.findIdx?_cons, Nat.add_comm]

theorem prefixName_prefixSerialize (base : BaseTechnique) (m : Msg) :
    prefixName (prefixSerialize env base m) (4 + (ascii (env.fullName m)).length) =
      ascii (env.fullName m) := by
  have hheader : magicProtobufHeader.length = 3 := by decide
  have hlength : (ascii "@PB[").length = 4 := by decide
  rw [prefixName, hheader, if_neg (by omega), prefixSerialize_eq, List.drop_left' hlength]
  exact List.take_left' (by omega)

theorem take_prefixSerialize (base : BaseTechnique) (m : Msg) :
    (prefixSerialize env base m).take magicProtobufHeader.length = magicProtobufHeader := by
  rw [prefixSerialize_eq, show ascii "@PB[" = magicProtobufHeader ++ ascii "[" by decide,
    List.append_assoc]
  exact List.take_left

theorem prefixParse_prefixSerialize (h : env.toProtobuf.Lawful) (technique : Technique)
    (base : BaseTechnique) (hname : env.fullName m₀ = env.fullName m) :
    prefixParse env technique base (prefixSerialize env base m) m₀ = .ok m := by
  have hheader : magicProtobufHeader.length = 3 := by decide
  have hlength : (prefixSerialize env base m).length =
      6 + (ascii (env.fullName m)).length + (base.serialize env m).length := by
    have hfixed : (ascii "@PB[").length = 4 := by decide
    rw [prefixSerialize_eq]
    simp only [List.length_append, List.length_cons, hfixed]
    omega
  have hbody : (prefixSerialize env base m).drop (4 + (ascii (env.fullName m)).length + 2) =
      base.serialize env m := by
    have hsplit : prefixSerialize env base m =
        (ascii "@PB[" ++ ascii (env.fullName m) ++ [endBracket, 0x20]) ++ base.serialize env m := by
      simp [prefixSerialize_eq]
    rw [hsplit]
    refine List.drop_left' ?_
    simp only [List.length_append, List.length_cons, List.length_nil]
    exact congrArg (· + (ascii (env.fullName m)).length + 2) (by decide)
  rw [prefixParse, if_pos ⟨by omega, take_prefixSerialize base m⟩, findIdx?_prefixSerialize h]
  dsimp only
  rw [prefixName_prefixSerialize, hname, if_neg (by simp), hbody]
  split
  · rw [base.parse_serialize h hname]
  next hempty =>
    -- nothing follows the name, so the message is the empty one
    have hnil : base.serialize env m = [] := List.length_eq_zero_iff.mp (by omega)
    rw [← base.parse_nil h m₀, ← hnil, base.parse_serialize h hname]

/-- Neither what the text format prints nor what starts with the header can be cast. -/
structure RejectsText (env : Environment Msg Double) : Prop where
  printText : ∀ m, env.toDouble (env.printText m) = none
  header : ∀ str, env.toDouble (magicProtobufHeader ++ str) = none

def Technique.usesProtobuf : Technique → Bool
  | .commaSeparatedKeyEqualsValuePairs | .format => false
  | _ => true

/-- A string that a technique writes is no number, unless it is a plain hexadecimal one. -/
theorem exists_serialize (h : env.toProtobuf.Lawful) (hcast : RejectsText env)
    (hc : c.technique.usesProtobuf = true) (hname : env.fullName m₀ = env.fullName m)
    (algorithm : List PublishAlgorithm) (format repeatedDelimiter : Bytes) (useShortEnum : Bool) :
    ∃ str, serialize env c.technique m algorithm format repeatedDelimiter useShortEnum = .ok str ∧
      parse env c useShortEnum str m₀ = .ok m ∧
      (c.technique.setsBinary = true ∨ env.toDouble str = none ∨
        c.technique = .protobufNativeHex ∧ str = hexEncode (env.serializeToString m) false) := by
  have hbase (base : BaseTechnique) : base.parse env (base.serialize env m) m₀ = m :=
    base.parse_serialize h hname
  have hheaded (technique : Technique) (base : BaseTechnique) :
      prefixParse env technique base (prefixSerialize env base m) m₀ = .ok m :=
    prefixParse_prefixSerialize h technique base hname
  have hheader (base : BaseTechnique) : env.toDouble (prefixSerialize env base m) = none := by
    simp only [prefixSerialize, List.append_assoc]
    exact hcast.header _
  unfold serialize parse
  cases ht : c.technique with
  | protobufTextFormat => exact ⟨_, rfl, congrArg _ (hbase _), .inr (.inl (hcast.printText m))⟩
  | protobufNativeEncoded => exact ⟨_, rfl, congrArg _ (hbase _), .inl rfl⟩
  | protobufNativeHex => exact ⟨_, rfl, congrArg _ (hbase _), .inr (.inr ⟨rfl, rfl⟩)⟩
  | prefixedProtobufTextFormat => exact ⟨_, rfl, hheaded _ _, .inr (.inl (hheader _))⟩
  | prefixedProtobufNativeHex => exact ⟨_, rfl, hheaded _ _, .inr (.inl (hheader _))⟩
  | prefixedProtobufNativeEncoded => exact ⟨_, rfl, hheaded _ _, .inl rfl⟩
  | commaSeparatedKeyEqualsValuePairs | format => simp [ht, Technique.usesProtobuf] at hc

/-- A string that is written as binary data or cannot be cast is read as it was written. -/
theorem sourceString_makeMoosMsg {var str : Bytes} {isBinary : Bool} {technique : Technique}
    {pbName : String} (h : isBinary = true ∨ env.toDouble str = none) :
    MoosTranslator.sourceString env (some (makeMoosMsg env var str isBinary technique pbName)) = str := by
  unfold makeMoosMsg
  rcases h with rfl | h
  · rfl
  · cases isBinary with
    | true => rfl
    | false => simp [h, MoosTranslator.sourceString]

theorem find_addTrigger {vars : MoosVariables Double} {var : Bytes} {m : MoosMsg Double}
    (h : vars.find var = some m) (trigger : Trigger) :
    (MoosTranslator.addTrigger trigger vars).find var = some m := by
  unfold MoosTranslator.addTrigger
  split
  · obtain ⟨e, he, rfl⟩ := Option.map_eq_some_iff.mp h
    simp [MoosVariables.find, List.find?_append, he]
  · exact h

/-- With a single create entry, the message is made from what its variable reads as. -/
theorem inverseRoundTrip_single (t : MoosTranslator) {entry : TranslatorEntry}
    {str : Bytes} (hentry : t.dictionary[env.fullName m]? = some entry) (hcreate : entry.create = [c])
    (hm₀ : env.newMessage (env.fullName m) = some m₀)
    (hstr : serialize env c.technique m [] c.format c.repeatedDelimiter entry.useShortEnum = .ok str) :
    t.inverseRoundTrip env m = parse env c entry.useShortEnum (MoosTranslator.sourceString env
      (some (makeMoosMsg env c.moosVar str c.technique.setsBinary c.technique (env.fullName m)))) m₀ := by
  have hfind : t.findEntry (env.fullName m) = .ok entry := by
    simp [MoosTranslator.findEntry, hentry]
  let written := makeMoosMsg env c.moosVar str c.technique.setsBinary c.technique (env.fullName m)
  have hinverse : t.protobufToInverseMoos env m =
      .ok (MoosTranslator.addTrigger entry.trigger [(c.moosVar, written)]) := by
    simp [MoosTranslator.protobufToInverseMoos, hfind, hcreate, MoosTranslator.inverseLoop, hstr,
      written, bind, Except.bind, pure, Except.pure]
  have hvar : (MoosTranslator.addTrigger entry.trigger [(c.moosVar, written)]).find c.moosVar =
      some written := find_addTrigger (by simp [MoosVariables.find]) _
  simp only [MoosTranslator.inverseRoundTrip, hinverse, MoosTranslator.moosToProtobuf, hfind, hm₀, hcreate,
    MoosTranslator.createLoop, hvar, bind, Except.bind, written]
  cases parse env c entry.useShortEnum _ m₀ <;> rfl

/-- A number that the hexadecimal string of the message can be read as is printed as digits of
which the library reads the message again. -/
def NumberReadBack (env : Environment Msg Double) (m : Msg) : Prop :=
  ∀ x, env.toDouble (hexEncode (env.serializeToString m) false) = some x →
    ∀ m₀, env.newMessage (env.fullName m) = some m₀ →
      env.parseFromString (hexDecode (env.ofDouble x)) m₀ = m

/-- With a single create entry that uses the protocol buffer library, a message comes back from
the variables it was written to, unless it is written as a plain hexadecimal string that is taken
for a number, and this number is no longer the string. -/
theorem inverseRoundTrip_eq_iff (h : env.toProtobuf.Lawful) (hcast : RejectsText env) (t : MoosTranslator)
    {entry : TranslatorEntry} {c : CreateParser} (m : Msg)
    (hentry : t.dictionary[env.fullName m]? = some entry) (hcreate : entry.create = [c])
    (hc : c.technique.usesProtobuf = true) :
    t.inverseRoundTrip env m = .ok m ↔ (c.technique = .protobufNativeHex → NumberReadBack env m) := by
  obtain ⟨m₀, hm₀, hname⟩ := h.newMessage m
  obtain ⟨str, hstr, hparse, hread⟩ := exists_serialize h hcast hc hname [] c.format
    c.repeatedDelimiter entry.useShortEnum
  rw [inverseRoundTrip_single t hentry hcreate hm₀ hstr]
  by_cases hplain : c.technique.setsBinary = true ∨ env.toDouble str = none
  · rw [sourceString_makeMoosMsg hplain]
    refine iff_of_true hparse fun hhex x hx => ?_
    simp only [hhex, Technique.setsBinary, Bool.false_eq_true, false_or] at hplain
    simp only [hhex, serialize, Except.ok.injEq] at hstr
    rw [← hstr] at hplain
    exact absurd (hplain.symm.trans hx) (by simp)
  · rw [← or_assoc] at hread
    obtain ⟨hhex, rfl⟩ := hread.resolve_left hplain
    obtain ⟨x, hx⟩ := Option.ne_none_iff_exists'.mp (not_or.mp hplain).2
    have hsource : MoosTranslator.sourceString env (some (makeMoosMsg env c.moosVar
        (hexEncode (env.serializeToString m) false) c.technique.setsBinary c.technique
        (env.fullName m))) = env.ofDouble x := by
      simp [makeMoosMsg, hhex, Technique.setsBinary, hx, MoosTranslator.sourceString]
    rw [hsource]
    simp [parse, hhex, BaseTechnique.parse, NumberReadBack, hx, hm₀]

/-! A message type with one optional integer field, of the values below 256, and the casts of
decimal numerals without sign and fraction. -/

structure Reading where
  value : Option (Fin 256) := none
  deriving DecidableEq

def numeral? (str : Bytes) : Option ℕ :=
  if str ≠ [] ∧ str.all (fun c => 48 ≤ c ∧ c ≤ 57) then
    some (str.foldl (fun n c => 10 * n + (c.toNat - 48)) 0)
  else none

/-- A numeral, or two around the letter `e`. -/
def scientific? (str : Bytes) : Option ℕ :=
  match str.span (fun c => c ≠ 0x65) with
  | (digits, []) => numeral? digits
  | (digits, _ :: exponent) => do pure ((← numeral? digits) * 10 ^ (← numeral? exponent))

def readingText : Option (Fin 256) → Bytes
  | none => []
  | some v => ascii "value: " ++ numeral v

def parseReadingText (str : Bytes) : Option (Fin 256) :=
  if str.take 7 = ascii "value: " then (numeral? (str.drop 7)).map (Fin.ofNat 256) else none

/-- The tag of the first field, and the value as a varint. -/
def encodeReading : Option (Fin 256) → Bytes
  | none => []
  | some v => if (v : ℕ) < 128 then [8, UInt8.ofNat v] else [8, UInt8.ofNat v, 1]

def decodeReading : Bytes → Option (Fin 256)
  | [8, b] => if b < 128 then some ⟨b.toNat, b.toNat_lt⟩ else none
  | [8, b, 1] => if b < 128 then none else some ⟨b.toNat, b.toNat_lt⟩
  | _ => none

def readingEnvironment : Environment Reading ℕ where
  fullName _ := "Reading"
  newMessage name := if name = "Reading" then some {} else none
  clear _ := {}
  printText m := readingText m.value
  parseText str _ := ⟨parseReadingText str⟩
  serializeToString m := encodeReading m.value
  parseFromString str _ := ⟨decodeReading str⟩
  toDouble := scientific?
  ofDouble := numeral
  serializePairs _ _ _ := .ok []
  parsePairs _ m _ _ := .ok m
  serializeFormat _ _ _ _ _ := .ok []
  parseFormat _ m _ _ _ _ := .ok m

theorem lawful_reading : readingEnvironment.toProtobuf.Lawful := by
  have htext : ∀ v : Fin 256, parseReadingText (readingText (some v)) = some v := by decide +kernel
  have hnative : ∀ v : Fin 256, decodeReading (encodeReading (some v)) = some v := by decide +kernel
  have hbracket : endBracket ∉ ascii "Reading" := by decide
  refine ⟨fun _ => hbracket, fun _ => ⟨{}, rfl, rfl⟩, ?_, ?_, fun _ => rfl, fun _ => rfl⟩
  · rintro ⟨_ | v⟩ _ _
    · rfl
    · exact congrArg Reading.mk (htext v)
  · rintro ⟨_ | v⟩ _ _
    · rfl
    · exact congrArg Reading.mk (hnative v)

theorem numeral?_eq_none {str : Bytes} {c : UInt8} (hc : c ∈ str) (h : ¬ (48 ≤ c ∧ c ≤ 57)) :
    numeral? str = none := by
  refine if_neg fun hall => h ?_
  simpa using List.all_eq_true.mp hall.2 c hc

theorem rejectsText_reading : RejectsText readingEnvironment := by
  have htext : ∀ v : Fin 256, scientific? (readingText (some v)) = none := by decide +kernel
  refine ⟨?_, fun str => ?_⟩
  · rintro ⟨_ | v⟩
    · rfl
    · exact htext v
  · have hspan : (magicProtobufHeader ++ str).span (fun c => c ≠ 0x65) =
        (magicProtobufHeader ++ str.takeWhile (fun c => c ≠ 0x65), str.dropWhile (fun c => c ≠ 0x65)) := by
      rw [List.span_eq_takeWhile_dropWhile]
      rfl
    have hnone : numeral? (magicProtobufHeader ++ str.takeWhile (fun c => c ≠ 0x65)) = none :=
      numeral?_eq_none (c := 64) (List.mem_cons_self ..) (by decide)
    show scientific? (magicProtobufHeader ++ str) = none
    unfold scientific?
    rw [hspan]
    cases str.dropWhile (fun c => c ≠ 0x65) with
    | nil => exact hnone
    | cons c exponent =>
      dsimp only
      rw [hnone]
      rfl

def hexEntry : TranslatorEntry :=
  { protobufName := "Reading", create := [{ technique := .protobufNativeHex, moosVar := ascii "READING" }] }

def hexTranslator : MoosTranslator := ⟨(∅ : Std.TreeMap String TranslatorEntry).insert "Reading" hexEntry⟩

/-- The hexadecimal string `080a` is no number; `0801` is, and its digits `801` are read as those. -/
theorem inverseRoundTrip_eq_iff_hex :
    hexTranslator.inverseRoundTrip readingEnvironment ⟨some 10⟩ = .ok ⟨some 10⟩ ∧
      hexTranslator.inverseRoundTrip readingEnvironment ⟨some 1⟩ = .ok ⟨some 1⟩ := by
  have hentry : hexTranslator.dictionary["Reading"]? = some hexEntry := by simp [hexTranslator]
  have hback (m : Reading) := inverseRoundTrip_eq_iff lawful_reading rejectsText_reading hexTranslator m
    hentry rfl rfl
  refine ⟨(hback _).mpr fun _ x hx => ?_, (hback _).mpr fun _ x hx m₀ _ => ?_⟩
  · cases hx
  · obtain rfl : 801 = x := Option.some.inj hx
    rfl

/-- The value 224 is written as `08e001`, which is published as the number 80 and read as `80`. -/
theorem inverseRoundTrip_hex_numeral :
    readingEnvironment.toProtobuf.Lawful ∧ RejectsText readingEnvironment ∧
    hexTranslator.protobufToInverseMoos readingEnvironment ⟨some 224⟩ =
      .ok [(ascii "READING", ⟨ascii "READING", .double 80, []⟩), ([], ⟨[], .string [], []⟩)] ∧
    hexTranslator.inverseRoundTrip readingEnvironment ⟨some 224⟩ = .ok ⟨none⟩ :=
  ⟨lawful_reading, rejectsText_reading, rfl, rfl⟩

end RoundTrip

end Goby.Moos
