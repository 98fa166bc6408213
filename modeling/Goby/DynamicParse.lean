import Goby.MoosTranslator

/-! `dynamic_parse` takes the type of a message from the prefix of the string, where `parse` is given
a message to fill. Both cut the prefix off for themselves: `parse` drops the blank behind the
closing bracket, `dynamic_parse` keeps it. -/

namespace Goby.Moos

variable {Msg Double : Type} (env : Environment Msg Double)

def asText (s : Bytes) : String := String.ofList (s.map fun b => Char.ofNat b.toNat)

/-- `none` is the null pointer that is returned if there is no prefix, or none of a type that is
loaded. -/
def dynamicParse (prefixTechnique : Technique) (base : BaseTechnique) (str : Bytes) :
    Except Bytes (Option Msg) :=
  if str.length > magicProtobufHeader.length ∧
      str.take magicProtobufHeader.length = magicProtobufHeader then
    match str.findIdx? (fun c => c = endBracket) with
    | none => .error (ascii "Incorrectly formatted protobuf message passed to MOOSTranslation<" ++
        ascii prefixTechnique.name ++ ascii ">::dynamic_parse.")
    | some endBracketPos =>
      match env.newMessage (asText (prefixName str endBracketPos)) with
      | none => .ok none
      | some msg =>
        if str.length > endBracketPos + 1 then
          .ok (some (base.parse env (str.drop (endBracketPos + 1)) msg))
        else .ok (some msg)
  else .ok none

/-- The text parser ignores a blank in front; names of types are ASCII. -/
structure Protobuf.Tolerant (pb : Protobuf Msg) : Prop where
  parseText_blank : ∀ str m, pb.parseText (0x20 :: str) m = pb.parseText str m
  ascii_fullName : ∀ m, ∀ c ∈ (pb.fullName m).toList, c.toNat < 128

theorem asText_ascii {s : String} (h : ∀ c ∈ s.toList, c.toNat < 128) : asText (ascii s) = s := by
  have hchar : ∀ c ∈ s.toList, Char.ofNat (UInt8.ofNat c.toNat).toNat = c := by
    intro c hc
    have hmod : (UInt8.ofNat c.toNat).toNat = c.toNat := by
      rw [UInt8.toNat_ofNat']
      have := h c hc
      omega
    rw [hmod, Char.ofNat_toNat]
  rw [asText, ascii, List.map_map]
  calc String.ofList (s.toList.map _) = String.ofList (s.toList.map id) :=
        congrArg String.ofList (List.map_congr_left hchar)
    _ = s := by simp

variable {env}

/-- The blank goes to the parser of the base technique. -/
theorem dynamicParse_prefixSerialize (h : env.toProtobuf.Lawful) (htolerant : env.toProtobuf.Tolerant)
    (technique : Technique) (base : BaseTechnique) {m m₀ : Msg}
    (hm₀ : env.newMessage (env.fullName m) = some m₀) :
    dynamicParse env technique base (prefixSerialize env base m) =
      .ok (some (base.parse env (0x20 :: base.serialize env m) m₀)) := by
  have hsplit : prefixSerialize env base m = (ascii "@PB[" ++ ascii (env.fullName m) ++ [endBracket]) ++
      0x20 :: base.serialize env m := by
    simp [prefixSerialize_eq]
  have hfixed : (ascii "@PB[" ++ ascii (env.fullName m) ++ [endBracket]).length =
      4 + (ascii (env.fullName m)).length + 1 := by
    simp only [List.length_append, List.length_singleton]
    rfl
  have hlength : (prefixSerialize env base m).length =
      4 + (ascii (env.fullName m)).length + 1 + (1 + (base.serialize env m).length) := by
    rw [hsplit, List.length_append, hfixed, List.length_cons, Nat.add_comm 1]
  have hheader : magicProtobufHeader.length = 3 := by decide
  rw [dynamicParse, if_pos ⟨by omega, take_prefixSerialize base m⟩, findIdx?_prefixSerialize h]
  dsimp only
  rw [prefixName_prefixSerialize, asText_ascii (htolerant.ascii_fullName m), hm₀]
  dsimp only
  rw [if_pos (by omega), hsplit, List.drop_left' hfixed]

/-- A blank makes the number of digits odd, and is itself decoded as a zero byte. -/
theorem hexDecode_blank_hexEncode (s : Bytes) (upperCase : Bool) :
    hexDecode (0x20 :: hexEncode s upperCase) = 0 :: s := by
  have hodd : (0x20 :: hexEncode s upperCase).length % 2 = 1 := by
    rw [List.length_cons, length_hexEncode]
    omega
  rw [hexDecode, if_pos hodd, hexPairs_hexEncode]
  rfl

/-! Readings whose text parser skips blanks. -/

def blankTolerant : Environment Reading ℕ :=
  { readingEnvironment with
    parseText := fun str _ => ⟨parseReadingText (str.dropWhile fun c => c = 0x20)⟩ }

theorem lawful_blankTolerant : blankTolerant.toProtobuf.Lawful := by
  have hblank : ∀ v : Option (Fin 256), (readingText v).dropWhile (fun c => c = 0x20) = readingText v
    | none => rfl
    | some _ => rfl
  refine ⟨lawful_reading.bracket, lawful_reading.newMessage, fun m m₀ hname => ?_,
    lawful_reading.parseFromString_serializeToString, fun _ => rfl, fun _ => rfl⟩
  refine Eq.trans ?_ (lawful_reading.parseText_printText m m₀ hname)
  exact congrArg (fun str => (⟨parseReadingText str⟩ : Reading)) (hblank m.value)

theorem tolerant_blankTolerant : blankTolerant.toProtobuf.Tolerant := by
  refine ⟨fun str m => ?_, fun _ => show ∀ c ∈ "Reading".toList, c.toNat < 128 by simp⟩
  simp [blankTolerant]

/-- The message survives the blank that `dynamic_parse` leaves in front of it: in the text format
always; of the others, if the library reads the message from its own bytes behind one more. -/
def SurvivesBlank (env : Environment Msg Double) (m m₀ : Msg) : BaseTechnique → Prop
  | .textFormat => True
  | .nativeEncoded => env.parseFromString (0x20 :: env.serializeToString m) m₀ = m
  | .nativeHex => env.parseFromString (0 :: env.serializeToString m) m₀ = m

/-- `parse` gives every message back, `dynamic_parse` exactly those that survive the blank. -/
theorem prefixed_parsers (h : env.toProtobuf.Lawful) (htolerant : env.toProtobuf.Tolerant)
    (technique : Technique) (base : BaseTechnique) {m m₀ : Msg}
    (hm₀ : env.newMessage (env.fullName m) = some m₀) (hname : env.fullName m₀ = env.fullName m) :
    (∀ out, env.fullName out = env.fullName m →
      prefixParse env technique base (prefixSerialize env base m) out = .ok m) ∧
    (dynamicParse env technique base (prefixSerialize env base m) = .ok (some m) ↔
      SurvivesBlank env m m₀ base) := by
  refine ⟨fun out => prefixParse_prefixSerialize h technique base, ?_⟩
  rw [dynamicParse_prefixSerialize h htolerant technique _ hm₀, Except.ok.injEq, Option.some.injEq]
  cases base with
  | textFormat =>
    simp only [BaseTechnique.parse, BaseTechnique.serialize, htolerant.parseText_blank, SurvivesBlank,
      h.parseText_printText m m₀ hname]
  | nativeEncoded => rfl
  | nativeHex =>
    rw [BaseTechnique.parse, BaseTechnique.serialize, hexDecode_blank_hexEncode, SurvivesBlank]

theorem prefixed_parsers_reading :
    prefixParse blankTolerant .prefixedProtobufTextFormat .textFormat
      (ascii "@PB[Reading] value: 10") {} = .ok ⟨some 10⟩ ∧
    dynamicParse blankTolerant .prefixedProtobufTextFormat .textFormat
      (ascii "@PB[Reading] value: 10") = .ok (some ⟨some 10⟩) := by
  have hparsers := @prefixed_parsers Reading ℕ blankTolerant lawful_blankTolerant
    tolerant_blankTolerant .prefixedProtobufTextFormat .textFormat ⟨some 10⟩ {} rfl rfl
  exact ⟨hparsers.1 {} rfl, hparsers.2.mpr trivial⟩

/-- The two native techniques: what `parse` reads as 10, `dynamic_parse` returns without a value. -/
theorem dynamicParse_native_reading :
    blankTolerant.toProtobuf.Lawful ∧ blankTolerant.toProtobuf.Tolerant ∧
    prefixParse blankTolerant .prefixedProtobufNativeEncoded .nativeEncoded
      (prefixSerialize blankTolerant .nativeEncoded ⟨some 10⟩) {} = .ok ⟨some 10⟩ ∧
    dynamicParse blankTolerant .prefixedProtobufNativeEncoded .nativeEncoded
      (prefixSerialize blankTolerant .nativeEncoded ⟨some 10⟩) = .ok (some ⟨none⟩) ∧
    prefixParse blankTolerant .prefixedProtobufNativeHex .nativeHex
      (prefixSerialize blankTolerant .nativeHex ⟨some 10⟩) {} = .ok ⟨some 10⟩ ∧
    dynamicParse blankTolerant .prefixedProtobufNativeHex .nativeHex
      (prefixSerialize blankTolerant .nativeHex ⟨some 10⟩) = .ok (some ⟨none⟩) :=
  ⟨lawful_blankTolerant, tolerant_blankTolerant, rfl, rfl, rfl, rfl⟩

end Goby.Moos
