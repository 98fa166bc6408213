import Goby.BluefinRequests

/-! A request should be answered by the final ack of the sentence that its command has queued, and
by no ack of another kind. Requests are filed by the type of their command and looked up by the
id of the sentence that is acked. The two agree for the kinds of sentence that stand for a type,
as long as one sentence of such a kind waits at a time. -/

namespace Goby.Bluefin

inductive Order where
  | command (c : CommandRequest)
  | trySend
  | receive (nmea : NmeaSentence)

section Definitions

variable (cfg : BluefinConfig) (clock : ℕ → ℚ) (formats : Formats)

def performOrder : Order → BluefinM Unit
  | .command c => sendCommandToFrontseat cfg clock formats c
  | .trySend => Bluefin.trySend cfg clock
  | .receive nmea => processReceive cfg nmea

def stepOrder (o : Order) (s : Bluefin) : Bluefin := finalState (performOrder cfg clock formats o) s

def afterOrders (s : Bluefin) (orders : List Order) : Bluefin :=
  performAll (stepOrder cfg clock formats) orders s

def asks (c : CommandRequest) : Bool := c.cancelRequestId.isNone && c.responseRequested

/-- The order cancels the request of the type, or files another one in its place. -/
def disturbs (type : BluefinCommand) (s : Bluefin) : Order → Bool
  | .command c =>
    match c.cancelRequestId with
    | some id => cancelledType id s = some type
    | none => c.responseRequested && commandType c = type
  | _ => false

/-- The sentence is in one of the deques; `pending_` has it as it was read back. -/
def Waiting (sentence : NmeaSentence) (s : Bluefin) : Prop :=
  sentence ∈ s.out ∨ sentence.reparsed ∈ s.pending

/-- The sentence is the front of a deque, and the ack is a final one of its kind. -/
structure FinallyAcked (sentence nmea : NmeaSentence) (status : ℤ) (s : Bluefin) : Prop where
  ack : ∃ acked, FinalAck nmea status acked s ∧ iequals sentence.sentenceId acked = true
  front : s.out.head? = some sentence ∨ s.pending.head? = some sentence.reparsed

section Laws

variable (after : List Order → Bluefin)

structure Kept (earlier : List Order) (c : CommandRequest) (between : List Order) : Prop where
  asks : asks c = true
  undisturbed : ∀ first o, first ++ [o] <+: between →
    disturbs (commandType c) (after (earlier ++ .command c :: first)) o = false
  outstanding : ∀ first, first <+: between →
    (after (earlier ++ .command c :: first)).outstandingRequests (commandType c) = some c.requestId

/-- The response is signalled at the ack and belongs to the request of the command. -/
structure Answer (earlier : List Order) (c : CommandRequest) (between : List Order)
    (nmea : NmeaSentence) (response : BluefinResponse) : Prop where
  kept : Kept after earlier c between
  signalled : (after (earlier ++ .command c :: (between ++ [.receive nmea]))).responses =
    (after (earlier ++ .command c :: between)).responses ++ [response]
  requestId : response.requestId = c.requestId
  closed : (after (earlier ++ .command c :: (between ++ [.receive nmea]))).outstandingRequests
    (commandType c) = none

/-- The sentence of a command waits for its final ack, and the request is neither cancelled nor
replaced. -/
structure Awaited (earlier : List Order) (c : CommandRequest) (sentence : NmeaSentence)
    (between : List Order) : Prop where
  undisturbed : ∀ first o, first ++ [o] <+: between →
    disturbs (commandType c) (after (earlier ++ .command c :: first)) o = false
  waiting : ∀ first, first <+: between → Waiting sentence (after (earlier ++ .command c :: first))
  notAcked : ∀ first nmea status, first ++ [.receive nmea] <+: between →
    ¬ FinallyAcked sentence nmea status (after (earlier ++ .command c :: first))

/-- The final ack of the sentence that a command has queued is answered, and no other ack is an
answer to that command. -/
def CommandsAnswered (orders : List Order) : Prop :=
  ∀ earlier c between nmea later sentence status,
    orders = earlier ++ .command c :: (between ++ .receive nmea :: later) → asks c = true →
    queued clock formats c (after earlier) = some sentence →
    Awaited after earlier c sentence between →
    FinallyAcked sentence nmea status (after (earlier ++ .command c :: between)) →
    (∃ response, Answer after earlier c between nmea response ∧
      (response.requestSuccessful = true ↔ status = requestSuccessfullyProcessed)) ∧
    ∀ between' nmea' later' response',
      orders = earlier ++ .command c :: (between' ++ .receive nmea' :: later') →
      Answer after earlier c between' nmea' response' → between' = between

/-- Every response is the answer to a command that has queued a sentence of the kind acked. -/
def AnsweredByOwnKind (orders : List Order) : Prop :=
  ∀ before o later, orders = before ++ o :: later →
    ∃ signalled, (after (before ++ [o])).responses = (after before).responses ++ signalled ∧
      ∀ response ∈ signalled, ∃ nmea earlier c between kind fields,
        o = .receive nmea ∧ before = earlier ++ .command c :: between ∧
        Answer after earlier c between nmea response ∧
        content formats c = some (kind, fields) ∧ ackedSentence nmea = some kind.sentenceId

end Laws

def waits (kind : SentenceKind) (s : Bluefin) : Bool :=
  (s.out ++ s.pending).any fun nmea => iequals nmea.sentenceId kind.sentenceId

/-- A request needs a sentence whose id stands for its type, and the only one of its kind; and
it cannot be filed once the connection breaks. -/
def regularCommand (s : Bluefin) (c : CommandRequest) : Bool :=
  match content formats c with
  | none => c.responseRequested = false
  | some (kind, _) =>
    (c.responseRequested = true →
      commandOf kind.sentenceId = commandType c ∧ s.nmeaDemerits < cfg.allowedNmeaDemerits) ∧
    (waits kind s = true →
      c.responseRequested = false ∧ s.outstandingRequests (commandType c) = none)

def regular (s : Bluefin) : Order → Bool
  | .command c => c.cancelRequestId.isSome || regularCommand cfg formats s c
  | .trySend => true
  | .receive nmea => nmea.sentenceId = ascii "ACK" → described nmea = true

end Definitions

variable {cfg : BluefinConfig} {clock : ℕ → ℚ} {formats : Formats} {s s' s₀ : Bluefin}
  {c : CommandRequest} {kind : SentenceKind} {sentence : NmeaSentence} {o : Order}
  {fields : List Bytes} {nmea : NmeaSentence} {type : BluefinCommand}

theorem commandOf_inj {id id' : Bytes} (h : commandOf id = commandOf id')
    (hknown : commandOf id ≠ .unknownCommand) : id = id' := by
  unfold commandOf at h hknown
  split_ifs at h hknown <;> simp_all

theorem mem_sentenceIds_of_commandOf {id : Bytes} (hknown : commandOf id ≠ .unknownCommand) :
    id ∈ sentenceIds := by
  unfold commandOf at hknown
  split_ifs at hknown with h h h h h
  all_goals first
    | (rw [h]; decide)
    | exact absurd rfl hknown

theorem commandType_ne_unknownCommand
    (hcontent : content formats c = some (kind, fields)) : commandType c ≠ .unknownCommand := by
  unfold content at hcontent
  unfold commandType
  split_ifs at hcontent with hextra
  · simp only [hextra, not_true_eq_false, and_false, if_false]
    unfold hasExtraCommand at hextra
    exact (by simpa using hextra : _ ∧ _).1
  · obtain ⟨course, hcourse, -⟩ := Option.map_eq_some_iff.mp hcontent
    simp [hcourse, hextra]

theorem extraSentence_command {x : BluefinExtraCommands}
    (hsentence : extraSentence x = some (kind, fields))
    (hknown : commandOf kind.sentenceId ≠ .unknownCommand) : x.command = commandOf kind.sentenceId := by
  unfold extraSentence at hsentence
  split at hsentence
  all_goals first
    | contradiction
    | cases hsentence; assumption
    | cases hsentence; exact absurd (by decide) hknown

/-- A sentence whose id stands for a type is queued by commands of that type only. -/
theorem commandType_eq_commandOf (hcontent : content formats c = some (kind, fields))
    (hknown : commandOf kind.sentenceId ≠ .unknownCommand) :
    commandType c = commandOf kind.sentenceId := by
  unfold content at hcontent
  unfold commandType
  split_ifs at hcontent with hextra
  · obtain ⟨x, hx, hsentence⟩ := Option.bind_eq_some_iff.mp hcontent
    simp only [hextra, not_true_eq_false, and_false, if_false, extraType, hx]
    exact extraSentence_command hsentence hknown
  · obtain ⟨course, hcourse, hkind⟩ := Option.map_eq_some_iff.mp hcontent
    obtain ⟨rfl, -⟩ := Prod.mk.inj hkind
    simp [hcourse, hextra]
    decide

theorem foldl_pushBack_sentenceId (fields : List Bytes) (nmea : NmeaSentence) :
    (fields.foldl NmeaSentence.pushBack nmea).sentenceId = nmea.sentenceId := by
  induction fields generalizing nmea with
  | nil => rfl
  | cons field fields ih => exact (ih _).trans rfl

theorem commandSentence_sentenceId (kind : SentenceKind) (now : ℚ) (fields : List Bytes) :
    (commandSentence formats kind now fields).sentenceId = kind.sentenceId := by
  refine (foldl_pushBack_sentenceId _ _).trans ?_
  cases kind <;> decide

theorem sentenceKind_eq_of_iequals {kind kind' : SentenceKind}
    (h : iequals kind.sentenceId kind'.sentenceId = true) : kind = kind' := by
  cases kind <;> cases kind' <;> first | rfl | exact absurd h (by decide)

theorem toUpper_toLower (b : UInt8) : toUpper (toLower b) = toUpper b :=
  forall_byte (by decide +kernel) b

theorem toUpper_toUpper (b : UInt8) : toUpper (toUpper b) = toUpper b :=
  forall_byte (by decide +kernel) b

theorem ackedSentence_eq {acked : Bytes}
    (hacked : ackedSentence nmea = some acked) (h : iequals kind.sentenceId acked = true) :
    acked = kind.sentenceId := by
  obtain ⟨name, -, rfl⟩ := Option.map_eq_some_iff.mp hacked
  have hlower : kind.sentenceId.map toLower = (name.map toUpper).map toLower := by
    simpa [iequals] using h
  have hupper : kind.sentenceId.map toUpper = name.map toUpper := by
    have := congrArg (List.map toUpper) hlower
    simpa [Function.comp_def, toUpper_toLower, toUpper_toUpper] using this
  rw [← hupper]
  cases kind <;> decide

theorem regularCommand_request (h : regularCommand cfg formats s c = true)
    (hasked : c.responseRequested = true) :
    ∃ kind fields, content formats c = some (kind, fields) ∧
      commandOf kind.sentenceId = commandType c ∧ s.nmeaDemerits < cfg.allowedNmeaDemerits := by
  unfold regularCommand at h
  cases hcontent : content formats c with
  | none => simp [hcontent, hasked] at h
  | some kf =>
    rw [hcontent] at h
    exact ⟨kf.1, kf.2, rfl, (of_decide_eq_true h).1 hasked⟩

theorem regularCommand_waits
    (h : regularCommand cfg formats s c = true) (hcontent : content formats c = some (kind, fields))
    (hwaits : waits kind s = true) :
    c.responseRequested = false ∧ s.outstandingRequests (commandType c) = none := by
  unfold regularCommand at h
  rw [hcontent] at h
  exact (of_decide_eq_true h).2 hwaits

theorem stepOrder_cancel {id : ℤ} (hcancel : c.cancelRequestId = some id) :
    stepOrder cfg clock formats (.command c) s = cancelRequest id s := by
  change finalState (sendCommandToFrontseat cfg clock formats c) s = _
  unfold sendCommandToFrontseat
  rw [hcancel]
  rfl

theorem stepOrder_sent (hack : cfg.disableAck = false)
    (hcancel : c.cancelRequestId = none) (h : regular cfg formats s (.command c) = true) :
    Sent clock formats c s (stepOrder cfg clock formats (.command c) s) := by
  apply sendCommandToFrontseat_sent hack hcancel
  intro hasked
  have hregular : regularCommand cfg formats s c = true := by simpa [regular, hcancel] using h
  obtain ⟨_, _, _, _, hdemerits⟩ := regularCommand_request hregular hasked
  exact hdemerits

theorem stepOrder_receive (h : regular cfg formats s (.receive nmea) = true) :
    Responded nmea s (stepOrder cfg clock formats (.receive nmea) s) :=
  processReceive_responded (of_decide_eq_true h) s

section

variable (hack : cfg.disableAck = false) (h : regular cfg formats s o = true)
include hack h

theorem stepOrder_outstanding (hdisturb : disturbs type s o = false) :
    (stepOrder cfg clock formats o s).outstandingRequests type = s.outstandingRequests type ∨
      ∃ nmea status acked requestId, o = .receive nmea ∧ FinalAck nmea status acked s ∧
        commandOf acked = type ∧ Answered nmea status type requestId s (stepOrder cfg clock formats o s) := by
  cases o with
  | command c =>
    left
    cases hcancel : c.cancelRequestId with
    | some id =>
      have hother : cancelledType id s ≠ some type := by simpa [disturbs, hcancel] using hdisturb
      rw [stepOrder_cancel hcancel]
      unfold cancelRequest
      split
      · rfl
      next cancelled hcancelled =>
        refine Function.update_of_ne ?_ _ _
        rintro rfl
        exact hother hcancelled
    | none =>
      rw [(stepOrder_sent hack hcancel h).outstanding]
      split_ifs with hasked
      · refine Function.update_of_ne ?_ _ _
        rintro rfl
        simp [disturbs, hcancel, hasked] at hdisturb
      · rfl
  | trySend => exact .inl (congrFun (trySend_moves s).requests.outstanding type)
  | receive nmea =>
    cases stepOrder_receive h with
    | same hsame _ => exact .inl (congrFun hsame.outstanding type)
    | @answer status requestId acked hfinal _ _ hanswered =>
      by_cases htype : commandOf acked = type
      · exact .inr ⟨nmea, status, acked, requestId, rfl, hfinal, htype, htype ▸ hanswered⟩
      · left
        rw [hanswered.outstanding]
        exact Function.update_of_ne (Ne.symm htype) _ _

theorem stepOrder_responses (ho : ∀ nmea, o ≠ .receive nmea) :
    (stepOrder cfg clock formats o s).responses = s.responses := by
  cases o with
  | command c =>
    cases hcancel : c.cancelRequestId with
    | some id =>
      rw [stepOrder_cancel hcancel]
      unfold cancelRequest
      split <;> rfl
    | none => exact (stepOrder_sent hack hcancel h).responses
  | trySend => exact (trySend_moves s).requests.responses
  | receive nmea => exact absurd rfl (ho nmea)

end

structure OnlyWaiting (sentence : NmeaSentence) (s : Bluefin) : Prop where
  out : ∀ nmea ∈ s.out, iequals nmea.sentenceId sentence.sentenceId = true → nmea = sentence
  pending : ∀ nmea ∈ s.pending, iequals nmea.sentenceId sentence.sentenceId = true →
    nmea = sentence.reparsed

namespace OnlyWaiting

variable {sentence : NmeaSentence}

theorem of_queuesFrom (h : OnlyWaiting sentence s) (hqueues : QueuesFrom s s') :
    OnlyWaiting sentence s' := by
  refine ⟨fun nmea hmem => h.out nmea (hqueues.out nmea hmem), fun nmea hmem hid => ?_⟩
  rcases hqueues.pending nmea hmem with hold | ⟨front, hfront, rfl⟩
  · exact h.pending nmea hold hid
  · rw [h.out front hfront hid]

theorem withSentence (h : OnlyWaiting sentence s) {nmea : Option NmeaSentence}
    (hnmea : ∀ x ∈ nmea, iequals x.sentenceId sentence.sentenceId = true → x = sentence) :
    OnlyWaiting sentence (withSentence nmea s) := by
  refine ⟨fun x hx hid => ?_, h.pending⟩
  rcases List.mem_append.mp hx with hold | hnew
  · exact h.out x hold hid
  · exact hnmea x (Option.mem_toList.mp hnew) hid

theorem finallyAcked (h : OnlyWaiting sentence s) {nmea : NmeaSentence} {status : ℤ} {acked : Bytes}
    (hack : FinalAck nmea status acked s) (hacked : acked = sentence.sentenceId) :
    FinallyAcked sentence nmea status s := by
  subst hacked
  refine ⟨⟨_, hack, by simp [iequals]⟩, hack.front.imp (fun hfront => ?_) fun hfront => ?_⟩
  · obtain ⟨front, rest, hout, hid⟩ := head_of_frontIs hfront
    rw [hout, h.out front (hout ▸ List.mem_cons_self) hid, List.head?_cons]
  · obtain ⟨front, rest, hpending, hid⟩ := head_of_frontIs hfront
    rw [hpending, h.pending front (hpending ▸ List.mem_cons_self) hid, List.head?_cons]

end OnlyWaiting

theorem waits_of_waiting (h : Waiting sentence s)
    (hkind : sentence.sentenceId = kind.sentenceId) : waits kind s = true := by
  unfold waits
  rw [List.any_eq_true]
  rcases h with hout | hpending
  · exact ⟨sentence, List.mem_append_left _ hout, by simp [iequals, hkind]⟩
  · refine ⟨sentence.reparsed, List.mem_append_right _ hpending, ?_⟩
    have hid : sentence.reparsed.sentenceId = kind.sentenceId := hkind
    simp [iequals, hid]

/-- Where no sentence of the kind waits, the new one is the only one. -/
theorem onlyWaiting_of_not_waits
    (h : waits kind s = false) (hkind : sentence.sentenceId = kind.sentenceId) :
    OnlyWaiting sentence s := by
  have hnone : ∀ nmea ∈ s.out ++ s.pending, iequals nmea.sentenceId sentence.sentenceId ≠ true := by
    rw [hkind]
    exact List.any_eq_false.mp h
  exact ⟨fun nmea hmem hid => absurd hid (hnone nmea (List.mem_append_left _ hmem)),
    fun nmea hmem hid => absurd hid (hnone nmea (List.mem_append_right _ hmem))⟩

/-- While its sentence waits, a request is outstanding and the sentence the only one of its kind. -/
structure Held (c : CommandRequest) (sentence : NmeaSentence) (s : Bluefin) : Prop where
  outstanding : s.outstandingRequests (commandType c) = some c.requestId
  only : OnlyWaiting sentence s

structure OwnKind (c : CommandRequest) (kind : SentenceKind) (sentence : NmeaSentence) : Prop where
  sentenceId : sentence.sentenceId = kind.sentenceId
  commandOf_eq : commandOf kind.sentenceId = commandType c
  known : commandOf kind.sentenceId ≠ .unknownCommand

theorem ownKind_of_queued
    (hregular : regularCommand cfg formats s c = true) (hasked : c.responseRequested = true)
    (hqueued : queued clock formats c s = some sentence) :
    ∃ kind fields, content formats c = some (kind, fields) ∧ OwnKind c kind sentence := by
  obtain ⟨kind, fields, hcontent, hkind, -⟩ := regularCommand_request hregular hasked
  refine ⟨kind, fields, hcontent, ?_, hkind, hkind ▸ commandType_ne_unknownCommand hcontent⟩
  simp only [queued, hcontent, Option.map_some, Option.some.injEq] at hqueued
  rw [← hqueued]
  exact commandSentence_sentenceId kind _ fields

theorem asks_iff : asks c = true ↔ c.cancelRequestId = none ∧ c.responseRequested = true := by
  simp [asks]

section

variable (hack : cfg.disableAck = false) (hasks : asks c = true)
  (h : regular cfg formats s (.command c) = true)
include hack hasks h

theorem stepOrder_filed :
    (stepOrder cfg clock formats (.command c) s).outstandingRequests (commandType c) =
      some c.requestId := by
  obtain ⟨hcancel, hasked⟩ := asks_iff.mp hasks
  rw [(stepOrder_sent hack hcancel h).outstanding, if_pos hasked, Function.update_self]

theorem held_command (hqueued : queued clock formats c s = some sentence) :
    Held c sentence (stepOrder cfg clock formats (.command c) s) := by
  refine ⟨stepOrder_filed hack hasks h, ?_⟩
  obtain ⟨hcancel, hasked⟩ := asks_iff.mp hasks
  have hregular : regularCommand cfg formats s c = true := by simpa [regular, hcancel] using h
  obtain ⟨kind, fields, hcontent, hown⟩ := ownKind_of_queued hregular hasked hqueued
  have hwaits : waits kind s = false := by
    by_contra hwaits
    have hnot := (regularCommand_waits hregular hcontent (by simpa using hwaits)).1
    exact absurd (hasked.symm.trans hnot) (by decide)
  have hsent : Sent clock formats c s (stepOrder cfg clock formats (.command c) s) :=
    stepOrder_sent hack hcancel h
  have hqueues := hsent.queues
  rw [hqueued] at hqueues
  refine ((onlyWaiting_of_not_waits hwaits hown.sentenceId).withSentence ?_).of_queuesFrom hqueues
  rintro x hx -
  exact (Option.mem_some_iff.mp hx).symm

end

theorem stepOrder_onlyWaiting (hack : cfg.disableAck = false) (hown : OwnKind c kind sentence)
    (hheld : Held c sentence s) (h : regular cfg formats s o = true) (hwaiting : Waiting sentence s) :
    OnlyWaiting sentence (stepOrder cfg clock formats o s) := by
  cases o with
  | command c' =>
    cases hcancel : c'.cancelRequestId with
    | some id =>
      rw [stepOrder_cancel hcancel]
      unfold cancelRequest
      split
      · exact hheld.only
      · exact ⟨hheld.only.out, hheld.only.pending⟩
    | none =>
      refine (hheld.only.withSentence ?_).of_queuesFrom (stepOrder_sent hack hcancel h).queues
      intro x hx hid
      obtain ⟨⟨kind', fields⟩, hcontent, rfl⟩ := Option.map_eq_some_iff.mp hx
      -- a second sentence of the kind is not regular while the request is outstanding
      exfalso
      rw [commandSentence_sentenceId, hown.sentenceId] at hid
      obtain rfl := sentenceKind_eq_of_iequals hid
      have hregular : regularCommand cfg formats s c' = true := by simpa [regular, hcancel] using h
      have hnone := (regularCommand_waits hregular hcontent (waits_of_waiting hwaiting hown.sentenceId)).2
      rw [commandType_eq_commandOf hcontent hown.known, hown.commandOf_eq, hheld.outstanding] at hnone
      cases hnone
  | trySend => exact hheld.only.of_queuesFrom (trySend_moves s).queues
  | receive nmea => exact hheld.only.of_queuesFrom (processReceive_queuesFrom nmea s)

theorem Held.stepOrder (hack : cfg.disableAck = false) (hheld : Held c sentence s)
    (hown : OwnKind c kind sentence) (h : regular cfg formats s o = true)
    (hdisturb : disturbs (commandType c) s o = false) (hwaiting : Waiting sentence s)
    (hnotAcked : ∀ nmea status, o = .receive nmea → ¬ FinallyAcked sentence nmea status s) :
    Held c sentence (stepOrder cfg clock formats o s) := by
  refine ⟨?_, stepOrder_onlyWaiting hack hown hheld h hwaiting⟩
  rcases stepOrder_outstanding hack h hdisturb with hsame | ⟨nmea, status, acked, _, ho, hfinal, htype, -⟩
  · exact hsame.trans hheld.outstanding
  · have hacked : acked = kind.sentenceId :=
      (commandOf_inj (hown.commandOf_eq.trans htype.symm) hown.known).symm
    have hmine := hheld.only.finallyAcked hfinal (hacked.trans hown.sentenceId.symm)
    exact absurd hmine (hnotAcked nmea status ho)

theorem afterOrders_concat (orders : List Order) (o : Order) :
    afterOrders cfg clock formats s₀ (orders ++ [o]) =
      stepOrder cfg clock formats o (afterOrders cfg clock formats s₀ orders) :=
  performAll_concat orders o

/-- A request that is there after its type was disturbed is a new one. -/
theorem stepOrder_disturbed (hack : cfg.disableAck = false)
    {requestId : ℤ} (h : regular cfg formats s o = true) (hdisturb : disturbs type s o = true)
    (hrequest : (stepOrder cfg clock formats o s).outstandingRequests type = some requestId) :
    ∃ c, o = .command c ∧ asks c = true ∧ commandType c = type ∧ c.requestId = requestId ∧
      ∃ kind fields, content formats c = some (kind, fields) ∧ commandOf kind.sentenceId = type := by
  cases o with
  | command c =>
    cases hcancel : c.cancelRequestId with
    | some id =>
      have hcancelled : cancelledType id s = some type := by simpa [disturbs, hcancel] using hdisturb
      simp [stepOrder_cancel hcancel, cancelRequest, hcancelled] at hrequest
    | none =>
      obtain ⟨hasked, rfl⟩ : c.responseRequested = true ∧ commandType c = type := by
        simpa [disturbs, hcancel] using hdisturb
      have hasks : asks c = true := asks_iff.mpr ⟨hcancel, hasked⟩
      have hregular : regularCommand cfg formats s c = true := by simpa [regular, hcancel] using h
      obtain ⟨kind, fields, hcontent, hkind, -⟩ := regularCommand_request hregular hasked
      rw [stepOrder_filed hack hasks h] at hrequest
      exact ⟨c, rfl, hasks, rfl, Option.some.inj hrequest, kind, fields, hcontent, hkind⟩
  | trySend => cases hdisturb
  | receive nmea => cases hdisturb

theorem isPrefix_command {orders earlier between first : List Order}
    (hearlier : earlier ++ .command c :: between <+: orders) (hfirst : first ++ [o] <+: between) :
    (earlier ++ .command c :: first) ++ [o] <+: orders := by
  refine List.IsPrefix.trans ?_ hearlier
  rw [List.append_assoc, List.prefix_append_right_inj]
  exact List.cons_prefix_cons.mpr ⟨rfl, hfirst⟩

theorem command_concat (earlier first : List Order) (c : CommandRequest) (o : Order) :
    earlier ++ .command c :: (first ++ [o]) = (earlier ++ .command c :: first) ++ [o] := by
  rw [List.append_assoc, List.cons_append]

section

variable {after : List Order → Bluefin} {earlier between : List Order}

theorem Kept.concat (h : Kept after earlier c between)
    (hdisturb : disturbs (commandType c) (after (earlier ++ .command c :: between)) o = false)
    (houtstanding : (after ((earlier ++ .command c :: between) ++ [o])).outstandingRequests (commandType c) =
      some c.requestId) : Kept after earlier c (between ++ [o]) := by
  refine ⟨h.asks, fun first o' hfirst => ?_, fun first hfirst => ?_⟩
  · rcases List.prefix_concat_iff.mp hfirst with heq | hold
    · obtain ⟨rfl, ho⟩ := List.append_inj' heq rfl
      cases ho
      exact hdisturb
    · exact h.undisturbed first o' hold
  · rcases List.prefix_concat_iff.mp hfirst with rfl | hold
    · rw [command_concat]
      exact houtstanding
    · exact h.outstanding first hold

theorem Kept.answer {status : ℤ} (h : Kept after earlier c between)
    (hanswered : Answered nmea status (commandType c) c.requestId (after (earlier ++ .command c :: between))
      (after ((earlier ++ .command c :: between) ++ [.receive nmea]))) :
    Answer after earlier c between nmea (responseTo nmea status c.requestId) := by
  refine ⟨h, ?_, responseTo_requestId .., ?_⟩
  · rw [command_concat]
    exact hanswered.responses
  · rw [command_concat, hanswered.outstanding, Function.update_self]

theorem answer_unique {between' later later' : List Order} {nmea' : NmeaSentence}
    {response response' : BluefinResponse}
    (heq : between ++ .receive nmea :: later = between' ++ .receive nmea' :: later')
    (h : Answer after earlier c between nmea response)
    (h' : Answer after earlier c between' nmea' response') : between' = between := by
  have hlonger : ∀ {b b' : List Order} {n n' : NmeaSentence} {r r'}, Answer after earlier c b n r →
      Answer after earlier c b' n' r' → ¬ b ++ [.receive n] <+: b' := by
    intro b b' n n' r r' hb hb' hbefore
    have hsome := hb'.kept.outstanding _ hbefore
    rw [hb.closed] at hsome
    cases hsome
  rcases List.append_eq_append_iff.mp heq with ⟨d, rfl, hd⟩ | ⟨d, rfl, hd⟩
  · cases d with
    | nil => simp
    | cons o d =>
      cases hd
      exact absurd ⟨d, by simp⟩ (hlonger h h')
  · cases d with
    | nil => simp
    | cons o d =>
      cases hd
      exact absurd ⟨d, by simp⟩ (hlonger h' h)

end

section Runs

variable {orders : List Order}
  (hregular : AllAllowed (stepOrder cfg clock formats) (regular cfg formats · ·) orders s₀)
  {first : List Order}
include hregular

theorem regular_of_isPrefix (hbefore : first ++ [o] <+: orders) :
    regular cfg formats (afterOrders cfg clock formats s₀ first) o = true := by
  obtain ⟨rest, rfl⟩ := hbefore
  rw [List.append_assoc] at hregular
  exact allowed_of_allAllowed hregular

theorem responded_of_isPrefix (hbefore : first ++ [.receive nmea] <+: orders) :
    Responded nmea (afterOrders cfg clock formats s₀ first)
      (afterOrders cfg clock formats s₀ (first ++ [.receive nmea])) := by
  rw [afterOrders_concat]
  exact stepOrder_receive (regular_of_isPrefix hregular hbefore)

variable (hack : cfg.disableAck = false)
include hack

theorem held_of_awaited {earlier between : List Order}
    (hearlier : earlier ++ .command c :: between <+: orders) (hasks : asks c = true)
    (hqueued : queued clock formats c (afterOrders cfg clock formats s₀ earlier) = some sentence)
    (hown : OwnKind c kind sentence)
    (hawaited : Awaited (afterOrders cfg clock formats s₀) earlier c sentence between) :
    ∀ first, first <+: between →
      Held c sentence (afterOrders cfg clock formats s₀ (earlier ++ .command c :: first)) := by
  apply forall_isPrefix
  · have hcommand : earlier ++ [.command c] <+: orders := by
      refine List.IsPrefix.trans ?_ hearlier
      rw [List.prefix_append_right_inj]
      exact List.cons_prefix_cons.mpr ⟨rfl, List.nil_prefix⟩
    rw [afterOrders_concat]
    exact held_command hack hasks (regular_of_isPrefix hregular hcommand) hqueued
  · intro first o hfirst hheld
    have hbefore : first <+: between := (List.prefix_append first [o]).trans hfirst
    rw [command_concat, afterOrders_concat]
    refine hheld.stepOrder hack hown (regular_of_isPrefix hregular (isPrefix_command hearlier hfirst))
      (hawaited.undisturbed first o hfirst) (hawaited.waiting first hbefore) ?_
    rintro nmea status rfl
    exact hawaited.notAcked first nmea status hfirst

theorem commandsAnswered :
    CommandsAnswered clock formats (afterOrders cfg clock formats s₀) orders := by
  intro earlier c between nmea later sentence status horders hasks hqueued hawaited hacked
  have hbefore : earlier ++ .command c :: between <+: orders := ⟨.receive nmea :: later, by simp [horders]⟩
  have hreceive : (earlier ++ .command c :: between) ++ [.receive nmea] <+: orders :=
    ⟨later, by simp [horders]⟩
  have hcommand : earlier ++ [.command c] <+: orders :=
    ⟨between ++ .receive nmea :: later, by simp [horders]⟩
  obtain ⟨hcancel, hasked⟩ := asks_iff.mp hasks
  have hregularCommand : regularCommand cfg formats (afterOrders cfg clock formats s₀ earlier) c = true := by
    simpa [regular, hcancel] using regular_of_isPrefix hregular hcommand
  obtain ⟨kind, fields, -, hown⟩ := ownKind_of_queued hregularCommand hasked hqueued
  have hheld := held_of_awaited hregular hack hbefore hasks hqueued hown hawaited
  have hkept : Kept (afterOrders cfg clock formats s₀) earlier c between :=
    ⟨hasks, hawaited.undisturbed, fun first hfirst => (hheld first hfirst).outstanding⟩
  obtain ⟨acked, hfinal, hid⟩ := hacked.ack
  obtain rfl : acked = kind.sentenceId := ackedSentence_eq hfinal.named (hown.sentenceId ▸ hid)
  have houtstanding := hkept.outstanding between (List.prefix_refl between)
  rw [← hown.commandOf_eq] at houtstanding
  have hanswer : Answer (afterOrders cfg clock formats s₀) earlier c between nmea
      (responseTo nmea status c.requestId) := by
    apply hkept.answer
    rw [← hown.commandOf_eq]
    cases responded_of_isPrefix hregular hreceive with
    | same _ hnone =>
      cases (hnone status _ hfinal (mem_sentenceIds_of_commandOf hown.known)).symm.trans houtstanding
    | answer hfinal' _ hrequest h =>
      obtain rfl := Option.some.inj (hfinal'.status_eq.symm.trans hfinal.status_eq)
      obtain rfl := Option.some.inj (hfinal'.named.symm.trans hfinal.named)
      obtain rfl := Option.some.inj (hrequest.symm.trans houtstanding)
      exact h
  refine ⟨⟨_, hanswer, responseTo_requestSuccessful ..⟩, ?_⟩
  intro between' nmea' later' response' horders' hanswer'
  rw [horders] at horders'
  have htail := List.append_cancel_left horders'
  exact answer_unique (List.cons.inj htail).2 hanswer hanswer'

theorem exists_kept (hnone : ∀ type, s₀.outstandingRequests type = none) :
    ∀ before, before <+: orders → ∀ type requestId,
      (afterOrders cfg clock formats s₀ before).outstandingRequests type = some requestId →
      ∃ earlier c between, before = earlier ++ .command c :: between ∧
        Kept (afterOrders cfg clock formats s₀) earlier c between ∧ commandType c = type ∧
        c.requestId = requestId ∧
        ∃ kind fields, content formats c = some (kind, fields) ∧ commandOf kind.sentenceId = type := by
  apply forall_isPrefix
  · intro type requestId hrequest
    have hnew : s₀.outstandingRequests type = some requestId := hrequest
    rw [hnone] at hnew
    cases hnew
  · intro before o hbefore ih type requestId hrequest
    have hregular' := regular_of_isPrefix hregular hbefore
    rw [afterOrders_concat] at hrequest
    cases hdisturb : disturbs type (afterOrders cfg clock formats s₀ before) o with
    | true =>
      obtain ⟨c, rfl, hasks, rfl, rfl, hkind⟩ := stepOrder_disturbed hack hregular' hdisturb hrequest
      refine ⟨before, c, [], rfl, ⟨hasks, ?_, ?_⟩, rfl, rfl, hkind⟩
      · intro first o hfirst
        exact absurd (List.prefix_nil.mp hfirst) (by simp)
      · intro first hfirst
        rw [List.prefix_nil.mp hfirst, afterOrders_concat]
        exact hrequest
    | false =>
      rcases stepOrder_outstanding hack hregular' hdisturb with hsame | ⟨_, _, _, _, -, -, -, hanswered⟩
      · rw [hsame] at hrequest
        obtain ⟨earlier, c, between, rfl, hkept, rfl, rfl, hkind⟩ := ih type requestId hrequest
        refine ⟨earlier, c, between ++ [o], (command_concat ..).symm, hkept.concat hdisturb ?_, rfl, rfl,
          hkind⟩
        rw [afterOrders_concat, hsame, hrequest]
      · rw [hanswered.outstanding, Function.update_self] at hrequest
        cases hrequest

theorem answeredByOwnKind (hnone : ∀ type, s₀.outstandingRequests type = none) :
    AnsweredByOwnKind formats (afterOrders cfg clock formats s₀) orders := by
  intro before o later horders
  have hbefore : before ++ [o] <+: orders := ⟨later, by simp [horders]⟩
  by_cases hreceive : ∃ nmea, o = .receive nmea
  · obtain ⟨nmea, rfl⟩ := hreceive
    cases responded_of_isPrefix hregular hbefore with
    | same hsame _ => exact ⟨[], by rw [hsame.responses, List.append_nil], nofun⟩
    | @answer status requestId acked hfinal _ hrequest hanswered =>
      refine ⟨_, hanswered.responses, ?_⟩
      intro response hresponse
      obtain rfl := List.mem_singleton.mp hresponse
      obtain ⟨earlier, c, between, rfl, hkept, htype, rfl, kind, fields, hcontent, hkind⟩ :=
        exists_kept hregular hack hnone before ((List.prefix_append _ _).trans hbefore) _ _ hrequest
      rw [← htype] at hanswered
      have hknown : commandOf acked ≠ .unknownCommand := htype ▸ commandType_ne_unknownCommand hcontent
      refine ⟨nmea, earlier, c, between, kind, fields, rfl, rfl, hkept.answer hanswered, hcontent, ?_⟩
      rw [← commandOf_inj hkind.symm hknown]
      exact hfinal.named
  · refine ⟨[], ?_, nofun⟩
    rw [afterOrders_concat, stepOrder_responses hack (regular_of_isPrefix hregular hbefore)
      fun nmea ho => hreceive ⟨nmea, ho⟩, List.append_nil]

end Runs

def sampleClock (readings : ℕ) : ℚ := readings

def sampleFormats : Formats where
  nmeaTime _ := ascii "120000"
  double _ := ascii "1.5"

theorem bfack_length : (ascii "$BFACK").length = 6 := by decide

theorem comma_notMem_bfack : comma ∉ ascii "$BFACK" := by decide

def ackOf (name status : String) : NmeaSentence where
  front := ascii "$BFACK"
  rest := ["120001", name, "120000", "0", status, "", "refused"].map ascii
  front_length := bfack_length
  front_comma := comma_notMem_bfack

def extraCommand (type : BluefinCommand) (responseRequested : Bool) : CommandRequest where
  bluefinCommand := some { command := type }
  responseRequested := responseRequested
  requestId := 7

def courseCommand : CommandRequest where
  desiredCourse := some { heading := 90, speed := 1, depth := 5 }
  responseRequested := true
  requestId := 8

/-- The trim is put off and done after the course has been refused. -/
def sampleOrders : List Order :=
  [.command (extraCommand .trimAdjust true), .receive (ackOf "trm" "3"), .command courseCommand, .trySend,
    .receive (ackOf "RMB" "1"), .receive (ackOf "TRM" "2")]

/-- In a run of regular orders responses and commands belong together. -/
theorem responses_match_commands (hack : cfg.disableAck = false)
    (hnone : ∀ type, s₀.outstandingRequests type = none) (orders : List Order)
    (hregular : AllAllowed (stepOrder cfg clock formats) (regular cfg formats · ·) orders s₀) :
    CommandsAnswered clock formats (afterOrders cfg clock formats s₀) orders ∧
      AnsweredByOwnKind formats (afterOrders cfg clock formats s₀) orders :=
  ⟨commandsAnswered hregular hack, answeredByOwnKind hregular hack hnone⟩

theorem responses_match_sampleOrders :
    (afterOrders {} sampleClock sampleFormats {} sampleOrders).responses =
        [{ requestSuccessful := false
           requestId := 8
           errorCode := some 1
           errorString := some (ascii "refused") },
         { requestSuccessful := true
           requestId := 7 }] ∧
      CommandsAnswered sampleClock sampleFormats (afterOrders {} sampleClock sampleFormats {}) sampleOrders ∧
      AnsweredByOwnKind sampleFormats (afterOrders {} sampleClock sampleFormats {}) sampleOrders :=
  ⟨by decide +kernel, responses_match_commands rfl (fun _ => rfl) sampleOrders (by decide +kernel)⟩

/-- `$BPRCE` is sent for it, which no ack can name. -/
def cancelBehaviorOrders : List Order :=
  [.command (extraCommand .cancelCurrentBehavior true), .receive (ackOf "RCE" "2")]

/-- A request without a sentence, and the ack of an abort that asks for no response. -/
def abortOrders : List Order :=
  [.command { responseRequested := true }, .command (extraCommand .abortMission false),
    .receive (ackOf "ABT" "2")]

theorem not_commandsAnswered_cancelBehaviorOrders :
    ¬ CommandsAnswered sampleClock sampleFormats (afterOrders {} sampleClock sampleFormats {})
      cancelBehaviorOrders := by
  intro h
  have hawaited : Awaited (afterOrders {} sampleClock sampleFormats {}) []
      (extraCommand .cancelCurrentBehavior true) (commandSentence sampleFormats .rce 0 [ascii "0"]) [] := by
    refine ⟨fun first o hfirst => ?_, fun first hfirst => ?_, fun first nmea status hfirst => ?_⟩
    · exact absurd (List.prefix_nil.mp hfirst) (by simp)
    · rw [List.prefix_nil.mp hfirst]
      exact .inl (by decide +kernel)
    · exact absurd (List.prefix_nil.mp hfirst) (by simp)
  have hacked : FinallyAcked (commandSentence sampleFormats .rce 0 [ascii "0"]) (ackOf "RCE" "2") 2
      (afterOrders {} sampleClock sampleFormats {}
        [.command (extraCommand .cancelCurrentBehavior true)]) := by
    refine ⟨⟨ascii "RCE", ⟨?_, ?_, ?_, ?_, .inl ?_⟩, ?_⟩, .inl ?_⟩ <;> decide +kernel
  obtain ⟨⟨response, hanswer, -⟩, -⟩ :=
    h [] _ [] _ [] _ 2 rfl (by decide) (by decide +kernel) hawaited hacked
  have hnone : (afterOrders {} sampleClock sampleFormats {} cancelBehaviorOrders).responses = [] := by
    decide +kernel
  have hlength := congrArg List.length (hnone.symm.trans hanswer.signalled)
  simp at hlength

theorem not_answeredByOwnKind_abortOrders :
    ¬ AnsweredByOwnKind sampleFormats (afterOrders {} sampleClock sampleFormats {}) abortOrders := by
  intro h
  obtain ⟨signalled, hsignalled, hall⟩ := h (abortOrders.take 2) (.receive (ackOf "ABT" "2")) [] rfl
  have hone : (afterOrders {} sampleClock sampleFormats {} abortOrders).responses =
      [{ requestSuccessful := true, requestId := 0 }] := by decide +kernel
  have hbefore : (afterOrders {} sampleClock sampleFormats {} (abortOrders.take 2)).responses = [] := by
    decide +kernel
  rw [hbefore, List.nil_append] at hsignalled
  obtain rfl : signalled = [{ requestSuccessful := true, requestId := 0 }] := hsignalled.symm.trans hone
  obtain ⟨nmea, earlier, c, between, kind, fields, -, hsplit, hanswer, hcontent, -⟩ :=
    hall _ (List.mem_singleton_self _)
  have hmem : Order.command c ∈ abortOrders.take 2 := by
    rw [hsplit]
    simp
  have hcommands : c = { responseRequested := true } ∨ c = extraCommand .abortMission false := by
    simpa [abortOrders] using hmem
  rcases hcommands with rfl | rfl
  · cases hcontent
  · cases hanswer.kept.asks

/-- A request whose sentence is acked goes without a response, and another gets one for an ack
that is not its own. -/
theorem responses_not_match_commands :
    ¬ CommandsAnswered sampleClock sampleFormats (afterOrders {} sampleClock sampleFormats {})
        cancelBehaviorOrders ∧
      ¬ AnsweredByOwnKind sampleFormats (afterOrders {} sampleClock sampleFormats {}) abortOrders :=
  ⟨not_commandsAnswered_cancelBehaviorOrders, not_answeredByOwnKind_abortOrders⟩

end Goby.Bluefin
