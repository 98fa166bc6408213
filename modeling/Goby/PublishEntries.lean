import Goby.MoosTranslator

/-! `protobuf_to_moos` and `protobuf_to_inverse_moos` go through a list of entries with one flag that
says whether data are binary. The message made for an entry is compared with the one that is made
when the entry is the only one of its list. -/

namespace Goby.Moos

variable {Msg Double : Type} (env : Environment Msg Double) {vars : MoosVariables Double}
  {entry : TranslatorEntry} {isBinary : Bool} {msg : Msg}

section Loop

variable {α : Type} (technique : α → Technique) (write : α → Except Bytes (Bytes × Bytes))
  (pbName : String)

/-- The loop of both functions: an entry is written as the name of a variable and a string. -/
def entriesLoop : List α → Bool → Except Bytes (MoosVariables Double)
  | [], _ => .ok []
  | a :: rest, isBinary => do
      let (moosVar, str) ← write a
      let isBinary := isBinary || (technique a).setsBinary
      let vars ← entriesLoop rest isBinary
      pure ((moosVar, makeMoosMsg env moosVar str isBinary (technique a) pbName) :: vars)

def onlyEntry (a : α) : Except Bytes (MoosVariables Double) :=
  entriesLoop env technique write pbName [a] false

/-- No binary technique comes before one that is not. -/
def BinaryLast (entries : List α) : Prop :=
  entries.Pairwise fun a b => (technique a).setsBinary = true → (technique b).setsBinary = true

variable {env technique write pbName} {entries : List α}

theorem makeMoosMsg_inj {var str : Bytes} {isBinary isBinary' : Bool} {t : Technique} :
    makeMoosMsg env var str isBinary t pbName = makeMoosMsg env var str isBinary' t pbName ↔
      isBinary = isBinary' := by
  refine ⟨fun h => ?_, fun h => h ▸ rfl⟩
  cases hcast : env.toDouble str <;> cases isBinary <;> cases isBinary' <;>
    simp [makeMoosMsg, hcast] at h ⊢

theorem onlyEntry_eq {a : α} {moosVar str : Bytes} (hwrite : write a = .ok (moosVar, str)) :
    onlyEntry env technique write pbName a =
      .ok [(moosVar, makeMoosMsg env moosVar str (technique a).setsBinary (technique a) pbName)] := by
  simp [onlyEntry, entriesLoop, hwrite, bind, Except.bind, pure, Except.pure]

theorem entriesLoop_cons {a : α} {rest : List α}
    (h : entriesLoop env technique write pbName (a :: rest) isBinary = .ok vars) :
    ∃ moosVar str tail, write a = .ok (moosVar, str) ∧
      entriesLoop env technique write pbName rest (isBinary || (technique a).setsBinary) = .ok tail ∧
      vars = (moosVar, makeMoosMsg env moosVar str (isBinary || (technique a).setsBinary)
        (technique a) pbName) :: tail := by
  cases hwrite : write a with
  | error e => simp [entriesLoop, hwrite, bind, Except.bind] at h
  | ok written =>
    cases htail : entriesLoop env technique write pbName rest
        (isBinary || (technique a).setsBinary) with
    | error e => simp [entriesLoop, hwrite, htail, bind, Except.bind] at h
    | ok tail =>
      simp only [entriesLoop, hwrite, htail, bind, Except.bind, pure, Except.pure,
        Except.ok.injEq] at h
      exact ⟨written.1, written.2, tail, rfl, rfl, h.symm⟩

theorem length_of_entriesLoop
    (h : entriesLoop env technique write pbName entries isBinary = .ok vars) :
    vars.length = entries.length := by
  induction entries generalizing isBinary vars with
  | nil =>
    obtain rfl : vars = [] := by simpa [entriesLoop, eq_comm] using h
    rfl
  | cons a rest ih =>
    obtain ⟨_, _, tail, _, htail, rfl⟩ := entriesLoop_cons h
    simp [ih htail]

/-- With the flag set before, all that follows must be binary as well. -/
theorem forall₂_onlyEntry (h : entriesLoop env technique write pbName entries isBinary = .ok vars) :
    List.Forall₂ (fun a m => onlyEntry env technique write pbName a = .ok [m]) entries vars ↔
      (isBinary = true → ∀ a ∈ entries, (technique a).setsBinary = true) ∧
        BinaryLast technique entries := by
  induction entries generalizing isBinary vars with
  | nil =>
    obtain rfl : vars = [] := by simpa [entriesLoop, eq_comm] using h
    simp [BinaryLast]
  | cons a rest ih =>
    obtain ⟨moosVar, str, tail, hwrite, htail, rfl⟩ := entriesLoop_cons h
    rw [List.forall₂_cons, ih htail, onlyEntry_eq hwrite, BinaryLast, BinaryLast, List.pairwise_cons]
    simp only [Except.ok.injEq, List.cons.injEq, and_true, Prod.mk.injEq, true_and, makeMoosMsg_inj,
      List.mem_cons, forall_eq_or_imp]
    cases isBinary <;> cases (technique a).setsBinary <;> simp

end Loop

namespace MoosTranslator

def writePublish (entry : TranslatorEntry) (msg : Msg) (p : PublishSerializer) :
    Except Bytes (Bytes × Bytes) := do
  let moosVar ← if p.technique = .format then
      env.serializeFormat msg p.algorithm p.moosVar p.repeatedDelimiter entry.useShortEnum
    else pure p.moosVar
  let str ← serialize env p.technique msg p.algorithm p.format p.repeatedDelimiter entry.useShortEnum
  pure (moosVar, str)

def writeCreate (entry : TranslatorEntry) (msg : Msg) (c : CreateParser) :
    Except Bytes (Bytes × Bytes) := do
  let str ← serialize env c.technique msg [] c.format c.repeatedDelimiter entry.useShortEnum
  pure (c.moosVar, str)

theorem publishLoop_eq (entry : TranslatorEntry) (msg : Msg) (entries : List PublishSerializer)
    (isBinary : Bool) :
    publishLoop env entry msg entries isBinary = entriesLoop env PublishSerializer.technique
      (writePublish env entry msg) (env.fullName msg) entries isBinary := by
  induction entries generalizing isBinary with
  | nil => rfl
  | cons p rest ih =>
    simp only [publishLoop, entriesLoop, writePublish, ih, pure_bind]
    split <;> simp only [bind_assoc, pure_bind]

theorem inverseLoop_eq (entry : TranslatorEntry) (msg : Msg) (entries : List CreateParser)
    (isBinary : Bool) :
    inverseLoop env entry msg entries isBinary = entriesLoop env CreateParser.technique
      (writeCreate env entry msg) (env.fullName msg) entries isBinary := by
  induction entries generalizing isBinary with
  | nil => rfl
  | cons c rest ih => simp only [inverseLoop, entriesLoop, writeCreate, ih, bind_assoc, pure_bind]

def single (entry : TranslatorEntry) (pbName : String) : MoosTranslator :=
  ⟨(∅ : Std.TreeMap String TranslatorEntry).insert pbName entry⟩

variable {env} {t : MoosTranslator}

theorem protobufToMoos_eq (hentry : t.dictionary[env.fullName msg]? = some entry) :
    t.protobufToMoos env msg = entriesLoop env PublishSerializer.technique
      (writePublish env entry msg) (env.fullName msg) entry.publish false := by
  simp [protobufToMoos, findEntry, hentry, publishLoop_eq, bind, Except.bind]

theorem protobufToInverseMoos_eq (hentry : t.dictionary[env.fullName msg]? = some entry) :
    t.protobufToInverseMoos env msg = (entriesLoop env CreateParser.technique
      (writeCreate env entry msg) (env.fullName msg) entry.create false).map
        (addTrigger entry.trigger) := by
  simp only [protobufToInverseMoos, findEntry, hentry, inverseLoop_eq, bind, Except.bind, pure,
    Except.pure]
  rfl

theorem single_dictionary (entry : TranslatorEntry) (pbName : String) :
    (single entry pbName).dictionary[pbName]? = some entry := by
  simp [single]

theorem protobufToMoos_single (entry : TranslatorEntry) (msg : Msg) (p : PublishSerializer) :
    (single { entry with publish := [p] } (env.fullName msg)).protobufToMoos env msg =
      onlyEntry env PublishSerializer.technique (writePublish env entry msg) (env.fullName msg) p :=
  protobufToMoos_eq (single_dictionary _ _)

theorem protobufToInverseMoos_single (entry : TranslatorEntry) (msg : Msg) (c : CreateParser) :
    (single { entry with create := [c] } (env.fullName msg)).protobufToInverseMoos env msg =
      (onlyEntry env CreateParser.technique (writeCreate env entry msg) (env.fullName msg) c).map
        (addTrigger entry.trigger) :=
  protobufToInverseMoos_eq (single_dictionary _ _)

theorem addTrigger_take (trigger : Trigger) (vars : MoosVariables Double) :
    (addTrigger trigger vars).take vars.length = vars := by
  unfold addTrigger
  split
  · exact List.take_left
  · exact List.take_length

theorem addTrigger_inj {trigger : Trigger} {vars vars' : MoosVariables Double}
    (hlength : vars.length = vars'.length) :
    addTrigger trigger vars = addTrigger trigger vars' ↔ vars = vars' := by
  refine ⟨fun h => ?_, fun h => h ▸ rfl⟩
  rw [← addTrigger_take trigger vars, h, hlength, addTrigger_take]

theorem protobufToInverseMoos_single_eq_ok {c : CreateParser} {m : Bytes × MoosMsg Double} :
    (single { entry with create := [c] } (env.fullName msg)).protobufToInverseMoos env msg =
        .ok (addTrigger entry.trigger [m]) ↔
      onlyEntry env CreateParser.technique (writeCreate env entry msg) (env.fullName msg) c =
        .ok [m] := by
  rw [protobufToInverseMoos_single]
  cases honly : onlyEntry env CreateParser.technique (writeCreate env entry msg)
      (env.fullName msg) c with
  | error e => simp [Except.map]
  | ok vars =>
    have hlength : vars.length = [c].length := length_of_entriesLoop honly
    simp [Except.map, addTrigger_inj (show vars.length = [m].length from hlength)]

/-! Readings that are published as text and in native encoding, under one variable each. -/

def textThenNative : TranslatorEntry :=
  { protobufName := "Reading"
    publish := [{ moosVar := ascii "TEXT" },
      { technique := .protobufNativeEncoded, moosVar := ascii "NATIVE" }]
    create := [{ moosVar := ascii "TEXT" },
      { technique := .protobufNativeEncoded, moosVar := ascii "NATIVE" }] }

def textAndNative : MoosVariables ℕ :=
  [(ascii "TEXT", ⟨ascii "TEXT", .string (ascii "value: 10"),
    ascii "Reading:TECHNIQUE_PROTOBUF_TEXT_FORMAT"⟩),
   (ascii "NATIVE", ⟨ascii "NATIVE", .binary [8, 10],
    ascii "Reading:TECHNIQUE_PROTOBUF_NATIVE_ENCODED"⟩)]

def nativeThenText : TranslatorEntry :=
  { textThenNative with
    publish := textThenNative.publish.reverse
    create := textThenNative.create.reverse }

/-- In a call that returns, each entry gets the message it gets alone exactly if no binary
technique comes before one that is not. -/
theorem entries_independent_iff {t : MoosTranslator} {entry : TranslatorEntry} {msg : Msg}
    (hentry : t.dictionary[env.fullName msg]? = some entry) :
    (∀ vars, t.protobufToMoos env msg = .ok vars →
      (List.Forall₂ (fun p m =>
          (single { entry with publish := [p] } (env.fullName msg)).protobufToMoos env msg = .ok [m])
        entry.publish vars ↔ BinaryLast PublishSerializer.technique entry.publish)) ∧
    ∀ vars, t.protobufToInverseMoos env msg = .ok vars →
      (List.Forall₂ (fun c m =>
          (single { entry with create := [c] } (env.fullName msg)).protobufToInverseMoos env msg =
            .ok (addTrigger entry.trigger [m]))
        entry.create (vars.take entry.create.length) ↔
          BinaryLast CreateParser.technique entry.create) := by
  constructor
  · intro vars hvars
    rw [protobufToMoos_eq hentry] at hvars
    simp only [protobufToMoos_single]
    simpa using forall₂_onlyEntry hvars
  · intro vars hvars
    rw [protobufToInverseMoos_eq hentry] at hvars
    simp only [protobufToInverseMoos_single_eq_ok]
    cases hwritten : entriesLoop env CreateParser.technique (writeCreate env entry msg)
        (env.fullName msg) entry.create false with
    | error e => simp [hwritten, Except.map] at hvars
    | ok written =>
      obtain rfl : addTrigger entry.trigger written = vars := by
        simpa [hwritten, Except.map] using hvars
      rw [← length_of_entriesLoop hwritten, addTrigger_take]
      simpa using forall₂_onlyEntry hwritten

theorem entries_independent_textThenNative :
    List.Forall₂ (fun p m =>
        (single { textThenNative with publish := [p] } "Reading").protobufToMoos readingEnvironment
          ⟨some 10⟩ = .ok [m]) textThenNative.publish textAndNative ∧
    List.Forall₂ (fun c m =>
        (single { textThenNative with create := [c] } "Reading").protobufToInverseMoos
          readingEnvironment ⟨some 10⟩ = .ok (addTrigger {} [m])) textThenNative.create textAndNative := by
  have hentry : (single textThenNative "Reading").dictionary[readingEnvironment.fullName ⟨some 10⟩]? =
      some textThenNative := single_dictionary _ _
  have hindependent := entries_independent_iff hentry
  exact ⟨(hindependent.1 textAndNative rfl).mpr
      (by simp [BinaryLast, textThenNative, Technique.setsBinary]),
    (hindependent.2 (addTrigger {} textAndNative) rfl).mpr
      (by simp [BinaryLast, textThenNative, Technique.setsBinary])⟩

/-- Behind the native encoding the same text is published as binary data, by either function. -/
theorem entries_dependent_nativeThenText :
    (single nativeThenText "Reading").protobufToMoos readingEnvironment ⟨some 10⟩ =
      .ok [(ascii "NATIVE", ⟨ascii "NATIVE", .binary [8, 10],
          ascii "Reading:TECHNIQUE_PROTOBUF_NATIVE_ENCODED"⟩),
        (ascii "TEXT", ⟨ascii "TEXT", .binary (ascii "value: 10"),
          ascii "Reading:TECHNIQUE_PROTOBUF_TEXT_FORMAT"⟩)] ∧
    (single { nativeThenText with publish := [{ moosVar := ascii "TEXT" }] } "Reading").protobufToMoos
        readingEnvironment ⟨some 10⟩ =
      .ok [(ascii "TEXT", ⟨ascii "TEXT", .string (ascii "value: 10"),
        ascii "Reading:TECHNIQUE_PROTOBUF_TEXT_FORMAT"⟩)] ∧
    (single nativeThenText "Reading").protobufToInverseMoos readingEnvironment ⟨some 10⟩ =
      .ok [(ascii "NATIVE", ⟨ascii "NATIVE", .binary [8, 10],
          ascii "Reading:TECHNIQUE_PROTOBUF_NATIVE_ENCODED"⟩),
        (ascii "TEXT", ⟨ascii "TEXT", .binary (ascii "value: 10"),
          ascii "Reading:TECHNIQUE_PROTOBUF_TEXT_FORMAT"⟩), ([], ⟨[], .string [], []⟩)] ∧
    (single { nativeThenText with create := [{ moosVar := ascii "TEXT" }] } "Reading").protobufToInverseMoos
        readingEnvironment ⟨some 10⟩ =
      .ok [(ascii "TEXT", ⟨ascii "TEXT", .string (ascii "value: 10"),
        ascii "Reading:TECHNIQUE_PROTOBUF_TEXT_FORMAT"⟩), ([], ⟨[], .string [], []⟩)] :=
  ⟨rfl, rfl, rfl, rfl⟩

end MoosTranslator

end Goby.Moos
