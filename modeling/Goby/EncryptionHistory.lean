import Goby.QueueManagerRuns

/-! The manager merges the rule of each message's destination, or an empty configuration, into
the codec before it encodes the message, and likewise with the source before it decodes
one. Merging never takes a passphrase back, so a message to a destination without a rule is
encrypted with whatever rule was applied last. The bytes are those that the message's own
rule asks for exactly if it has a rule or the rules make no difference to the codec. -/

namespace Goby

namespace DcclCodec

variable {Desc Msg : Type} [DecidableEq Desc] (lib : Library Desc Msg)
  {rules : Std.TreeMap ℤ String} {c₀ c : DcclCodec Desc}

def keyed (c : DcclCodec Desc) (rule : Option String) : Option (String × List ℕ) :=
  match rule <|> c.cfg.cryptoPassphrase with
  | some passphrase => some (passphrase, c.cfg.skipCryptoForId)
  | none => c.codec.settings.crypto

theorem mergeRule_cfg (c : DcclCodec Desc) (rule : Option String) :
    (c.mergeCfg lib { cryptoPassphrase := rule }).cfg =
      { c.cfg with cryptoPassphrase := rule <|> c.cfg.cryptoPassphrase } := by
  rw [mergeCfg, processCfg_cfg]
  simp [DcclConfig.mergeFrom]

/-- A configured identifier codec differs from the empty one of the rule, so the object is
replaced each time. -/
theorem mergeRule_settings (c : DcclCodec Desc) (rule : Option String) :
    (c.mergeCfg lib { cryptoPassphrase := rule }).codec.settings =
      if c.cfg.idCodecD = "" then { c.codec.settings with crypto := c.keyed rule }
      else { idCodec := c.cfg.idCodecD } := by
  by_cases hid : c.cfg.idCodecD = ""
  · rw [mergeCfg, processCfg_of_not_replaces, if_pos hid]
    · have hskip : (c.cfg.mergeFrom { cryptoPassphrase := rule }).skipCryptoForId =
          c.cfg.skipCryptoForId := List.append_nil _
      have hmerged : (c.cfg.mergeFrom { cryptoPassphrase := rule }).cryptoPassphrase =
          (rule <|> c.cfg.cryptoPassphrase) := rfl
      cases hr : rule <|> c.cfg.cryptoPassphrase <;> simp only [keyed, hskip, hmerged, hr]
    · rintro ⟨hnew, -⟩
      exact of_decide_eq_true hnew hid
  · obtain ⟨identifier, hi⟩ : ∃ identifier, c.cfg.idCodec = some identifier := by
      cases h : c.cfg.idCodec with
      | none => exact absurd (by simp [DcclConfig.idCodecD, h]) hid
      | some identifier => exact ⟨identifier, rfl⟩
    rw [mergeCfg, processCfg_of_replaces, if_neg hid]
    · simp [DcclConfig.idCodecD, DcclConfig.mergeFrom, hi]
    · exact ⟨decide_eq_true hid, by simp [DcclConfig.mergeFrom, hi]⟩

structure Derived (rules : Std.TreeMap ℤ String) (c₀ c : DcclCodec Desc) : Prop where
  idCodec : c.cfg.idCodec = c₀.cfg.idCodec
  skip : c.cfg.skipCryptoForId = c₀.cfg.skipCryptoForId
  passphrase : c.cfg.cryptoPassphrase = c₀.cfg.cryptoPassphrase ∨
    ∃ (modem : ℤ) (p : String), rules[modem]? = some p ∧ c.cfg.cryptoPassphrase = some p
  sameId : c₀.cfg.idCodecD = "" → c.codec.settings.idCodec = c₀.codec.settings.idCodec
  crypto : c₀.cfg.idCodecD = "" → c.codec.settings.crypto = c₀.codec.settings.crypto ∨
    c.codec.settings.crypto = c₀.keyed none ∨ ∃ (modem : ℤ) (p : String), rules[modem]? = some p ∧
      c.codec.settings.crypto = some (p, c₀.cfg.skipCryptoForId)

omit [DecidableEq Desc] in
theorem Derived.refl (rules : Std.TreeMap ℤ String) (c : DcclCodec Desc) : Derived rules c c :=
  ⟨rfl, rfl, .inl rfl, fun _ => rfl, fun _ => .inl rfl⟩

omit [DecidableEq Desc] in
theorem Derived.keyed (h : Derived rules c₀ c)
    (hid : c₀.cfg.idCodecD = "") (modem : ℤ) :
    c.keyed rules[modem]? = c₀.codec.settings.crypto ∨ c.keyed rules[modem]? = c₀.keyed none ∨
      ∃ (modem' : ℤ) (p : String), rules[modem']? = some p ∧
        c.keyed rules[modem]? = some (p, c₀.cfg.skipCryptoForId) := by
  cases hr : rules[modem]? with
  | some p => exact .inr (.inr ⟨modem, p, hr, by simp [DcclCodec.keyed, h.skip]⟩)
  | none =>
    rcases h.passphrase with hp | ⟨modem', p, hrule, hp⟩
    · cases hb : c₀.cfg.cryptoPassphrase with
      | some b => exact .inr (.inl (by simp [DcclCodec.keyed, hp, hb, h.skip]))
      | none => simpa [DcclCodec.keyed, hp, hb] using h.crypto hid
    · exact .inr (.inr ⟨modem', p, hrule, by simp [DcclCodec.keyed, hp, h.skip]⟩)

theorem Derived.merge (h : Derived rules c₀ c)
    (modem : ℤ) : Derived rules c₀ (c.mergeCfg lib { cryptoPassphrase := rules[modem]? }) := by
  have hidD : c.cfg.idCodecD = c₀.cfg.idCodecD := by rw [DcclConfig.idCodecD, DcclConfig.idCodecD, h.idCodec]
  constructor
  · rw [mergeRule_cfg]
    exact h.idCodec
  · rw [mergeRule_cfg]
    exact h.skip
  · rw [mergeRule_cfg]
    cases hr : rules[modem]? with
    | some p => exact .inr ⟨modem, p, hr, rfl⟩
    | none => exact h.passphrase
  · intro hid
    rw [mergeRule_settings, if_pos (hidD.trans hid)]
    exact h.sameId hid
  · intro hid
    rw [mergeRule_settings, if_pos (hidD.trans hid)]
    exact h.keyed hid modem

end DcclCodec

namespace QueueManager

variable {Desc Msg : Type} [DecidableEq Desc] {s₀ s : QueueManager Desc Msg}

inductive CodingCall (Msg : Type) where
  | encode (msgs : List (QueuedMessage Msg))
  | decode (bytes : Bytes)

def coded (env : Environment Desc Msg) (s : QueueManager Desc Msg) :
    CodingCall Msg → QueueManager Desc Msg
  | .encode msgs => finalState (encodeRepeated env msgs) s
  | .decode bytes => finalState (decodeRepeated env bytes) s

def encodedAfter (env : Environment Desc Msg) (s : QueueManager Desc Msg)
    (history : List (CodingCall Msg)) (m : QueuedMessage Msg) : Except Failure Bytes :=
  match encodeRepeated env [m] (history.foldl (coded env) s) with
  | .ok bytes _ => .ok bytes
  | .error e _ => .error e

/-- The settings that a codec has for a rule alone: those it was configured with, if there
is no rule. -/
def ownSettings (lib : Library Desc Msg) (c : DcclCodec Desc) : Option String → CodecSettings
  | some passphrase => (c.mergeCfg lib { cryptoPassphrase := some passphrase }).codec.settings
  | none => c.codec.settings

/-- The bytes of a message under the base configuration and the rule of its own destination. -/
def ownEncoding (env : Environment Desc Msg) (s : QueueManager Desc Msg) (m : QueuedMessage Msg) :
    Except Failure Bytes :=
  (env.encode (ownSettings env.toLibrary s.codec s.encryptRules[m.msgMeta.destD]?) m.dcclMsg
    false).mapError Failure.dccl

/-- The destination has a rule, or the rules make no difference to the codec. -/
def RuleDecides (s : QueueManager Desc Msg) (dest : ℤ) : Prop :=
  s.encryptRules[dest]? = none → s.encryptRules.isEmpty = false →
    if s.codec.cfg.idCodecD = "" then
      s.codec.keyed none = s.codec.codec.settings.crypto ∧
        ∀ (modem : ℤ) (passphrase : String), s.encryptRules[modem]? = some passphrase →
          s.codec.codec.settings.crypto = some (passphrase, s.codec.cfg.skipCryptoForId)
    else s.codec.codec.settings = { idCodec := s.codec.cfg.idCodecD }

/-- The rules are as at first, and the codec is as merging them can have left it. -/
structure Recoded (s₀ s : QueueManager Desc Msg) : Prop where
  rules : s.encryptRules = s₀.encryptRules
  codec : s₀.codec.Derived s₀.encryptRules s.codec
  untouched : s₀.encryptRules.isEmpty = true → s.codec = s₀.codec

omit [DecidableEq Desc] in
theorem Recoded.refl (s : QueueManager Desc Msg) : Recoded s s := ⟨rfl, .refl _ _, fun _ => rfl⟩

variable {env : Environment Desc Msg}

theorem applyRule_recoded (s₀ : QueueManager Desc Msg) (modem : ℤ) :
    Guarantees (Preserves (Recoded s₀)) (applyRule env modem) := by
  refine .modify fun s h => ?_
  split
  · exact h
  next hne =>
    refine ⟨h.rules, ?_, fun hempty => absurd (h.rules ▸ hempty) hne⟩
    rw [ruleCfg, h.rules]
    exact h.codec.merge env.toLibrary modem

theorem recoded_coded (h : Recoded s₀ s) (c : CodingCall Msg) : Recoded s₀ (coded env s c) := by
  cases c with
  | encode msgs => exact guarantees_encodeRepeated (applyRule_recoded s₀) msgs s h
  | decode bytes => exact guarantees_decodeLoop (applyRule_recoded s₀) _ bytes [] s h

theorem recoded_history (h : Recoded s₀ s)
    (history : List (CodingCall Msg)) : Recoded s₀ (history.foldl (coded env) s) := by
  induction history generalizing s with
  | nil => exact h
  | cons c history ih => exact ih (recoded_coded h c)

def sentSettings (env : Environment Desc Msg) (s : QueueManager Desc Msg) (dest : ℤ) : CodecSettings :=
  (finalState (applyRule env dest) s).codec.codec.settings

theorem sentSettings_of_empty (h : s.encryptRules.isEmpty = true)
    (dest : ℤ) : sentSettings env s dest = s.codec.codec.settings := by
  simp [sentSettings, finalState, applyRule, h]

theorem sentSettings_of_rules (h : s.encryptRules.isEmpty = false)
    (dest : ℤ) : sentSettings env s dest =
      (s.codec.mergeCfg env.toLibrary { cryptoPassphrase := s.encryptRules[dest]? }).codec.settings := by
  simp [sentSettings, finalState, applyRule, h, ruleCfg]

theorem encodeRepeated_singleton (s : QueueManager Desc Msg) (m : QueuedMessage Msg) :
    encodeRepeated env [m] s =
      match env.encode (sentSettings env s m.msgMeta.destD) m.dcclMsg false with
      | .ok bytes => .ok bytes (finalState (applyRule env m.msgMeta.destD) s)
      | .error e => .error (.dccl e) (finalState (applyRule env m.msgMeta.destD) s) := by
  have hrun : applyRule env m.msgMeta.destD s =
      .ok () (finalState (applyRule env m.msgMeta.destD) s) := rfl
  simp only [encodeRepeated, encode, run_bind, run_get, hrun, sentSettings]
  cases env.encode _ m.dcclMsg false <;> simp [lift, Except.mapError]

theorem encodedAfter_eq (s : QueueManager Desc Msg) (history : List (CodingCall Msg))
    (m : QueuedMessage Msg) : encodedAfter env s history m =
      (env.encode (sentSettings env (history.foldl (coded env) s) m.msgMeta.destD) m.dcclMsg
        false).mapError Failure.dccl := by
  rw [encodedAfter, encodeRepeated_singleton]
  cases env.encode _ m.dcclMsg false <;> rfl

/-- Where a rule decides, the settings after any history are those of the rule alone. -/
theorem sentSettings_of_ruleDecides (h : Recoded s₀ s) {dest : ℤ} (hd : RuleDecides s₀ dest) :
    sentSettings env s dest = ownSettings env.toLibrary s₀.codec s₀.encryptRules[dest]? := by
  have hidD : s.codec.cfg.idCodecD = s₀.codec.cfg.idCodecD := by
    rw [DcclConfig.idCodecD, DcclConfig.idCodecD, h.codec.idCodec]
  cases hempty : s₀.encryptRules.isEmpty with
  | true =>
    have hnone : s₀.encryptRules[dest]? = none := Std.TreeMap.getElem?_of_isEmpty hempty
    rw [sentSettings_of_empty (h.rules ▸ hempty), hnone, h.untouched hempty]
    rfl
  | false =>
    rw [sentSettings_of_rules (h.rules ▸ hempty), h.rules]
    cases hrule : s₀.encryptRules[dest]? with
    | some p =>
      rw [ownSettings, DcclCodec.mergeRule_settings, DcclCodec.mergeRule_settings, hidD]
      split
      next hid => simp [DcclCodec.keyed, h.codec.skip, h.codec.sameId hid]
      next => rfl
    | none =>
      have hsame := hd hrule hempty
      rw [ownSettings, DcclCodec.mergeRule_settings, hidD]
      split at hsame
      next hid =>
        obtain ⟨hbase, hrules⟩ := hsame
        have hcrypto : s.codec.keyed none = s₀.codec.codec.settings.crypto := by
          have hkeyed := h.codec.keyed hid dest
          rw [hrule] at hkeyed
          rcases hkeyed with hk | hk | ⟨modem, p, hp, hk⟩
          · exact hk
          · exact hk.trans hbase
          · exact hk.trans (hrules modem p hp).symm
        rw [if_pos hid, hcrypto]
        simp only [h.codec.sameId hid]
      next hid => rw [if_neg hid, hsame]

/-- After a message to another destination, a message without a rule gets its settings. -/
theorem sentSettings_leak (hempty : s.encryptRules.isEmpty = false)
    {dest modem : ℤ} {p : String} (hnone : s.encryptRules[dest]? = none)
    (hrule : s.encryptRules[modem]? = some p) (hid : s.codec.cfg.idCodecD = "") (msg : Msg) :
    (sentSettings env (coded env s (.encode [⟨msg, { dest := some modem }⟩])) dest).crypto =
      some (p, s.codec.cfg.skipCryptoForId) := by
  have hcoded : coded env s (.encode [⟨msg, { dest := some modem }⟩]) =
      { s with codec := s.codec.mergeCfg env.toLibrary { cryptoPassphrase := some p } } := by
    simp only [coded, finalState, encodeRepeated_singleton]
    cases env.encode _ msg false <;>
      simp [applyRule, hempty, ruleCfg, QueuedMessageMeta.destD, hrule]
  rw [hcoded, sentSettings_of_rules (by exact hempty), hnone, DcclCodec.mergeRule_settings]
  have hcfg := DcclCodec.mergeRule_cfg env.toLibrary s.codec (some p)
  have hid' : (s.codec.mergeCfg env.toLibrary { cryptoPassphrase := some p }).cfg.idCodecD = "" := by
    rw [hcfg]
    exact hid
  rw [if_pos hid']
  simp [DcclCodec.keyed, hcfg]

/-- Whatever the encryption, a message is encoded by the base configuration and its own
rule after every history, exactly if its rule decides. -/
theorem encodedAfter_own_iff (env : Environment Desc Msg) (s : QueueManager Desc Msg)
    (m : QueuedMessage Msg) :
    (∀ (encode : CodecSettings → Msg → Bool → Except String Bytes) (history : List (CodingCall Msg)),
      encodedAfter { env with encode := encode } s history m =
        ownEncoding { env with encode := encode } s m) ↔ RuleDecides s m.msgMeta.destD := by
  constructor
  · intro h hnone hempty
    -- an encryption that tells the base settings from all others
    let telling : CodecSettings → Msg → Bool → Except String Bytes :=
      fun settings _ _ => .ok (if settings = s.codec.codec.settings then [] else [0])
    have hbase : ∀ history : List (CodingCall Msg), sentSettings { env with encode := telling }
        (history.foldl (coded { env with encode := telling }) s) m.msgMeta.destD =
          s.codec.codec.settings := by
      intro history
      have hown := h telling history
      rw [encodedAfter_eq, ownEncoding, hnone] at hown
      by_contra hne
      simp [telling, ownSettings, hne, Except.mapError] at hown
    have hfirst := hbase []
    rw [List.foldl_nil, sentSettings_of_rules hempty, hnone, DcclCodec.mergeRule_settings] at hfirst
    split
    next hid =>
      rw [if_pos hid] at hfirst
      refine ⟨congrArg CodecSettings.crypto hfirst, fun modem p hp => ?_⟩
      rw [← hbase [.encode [⟨m.dcclMsg, { dest := some modem }⟩]]]
      exact sentSettings_leak hempty hnone hp hid m.dcclMsg
    next hid =>
      rw [if_neg hid] at hfirst
      exact hfirst.symm
  · intro hd encode history
    rw [encodedAfter_eq, ownEncoding, sentSettings_of_ruleDecides (recoded_history (.refl s) history) hd]

def ruledManager : QueueManager SampleDesc SampleMsg :=
  stateAfter sampleEnvironment 0 sampleCodec [.setCfg {
    modemId := some 1
    messageEntry := [sampleEntry]
    encryptRule := [{ id := 2, cryptoPassphrase := "secret" }] }]

/-- A message to node 3 is encrypted after one to node 2 was encoded, and not before. -/
theorem encodedAfter_history_dependent :
    encodedAfter sampleEnvironment ruledManager []
        ⟨{ src := 1, dest := 3, body := 7 }, { dest := some 3 }⟩ ≠
      encodedAfter sampleEnvironment ruledManager
        [.encode [⟨{ src := 1, dest := 2, body := 7 }, { dest := some 2 }⟩]]
        ⟨{ src := 1, dest := 3, body := 7 }, { dest := some 3 }⟩ := by
  intro h
  have hplain : (encodedAfter sampleEnvironment ruledManager []
      ⟨{ src := 1, dest := 3, body := 7 }, { dest := some 3 }⟩).toOption = some [1, 1, 3, 7] := by
    decide +kernel
  have hkeyed : (encodedAfter sampleEnvironment ruledManager
      [.encode [⟨{ src := 1, dest := 2, body := 7 }, { dest := some 2 }⟩]]
      ⟨{ src := 1, dest := 3, body := 7 }, { dest := some 3 }⟩).toOption = some [1, 1, 3, 13] := by
    decide +kernel
  rw [h, hkeyed] at hplain
  exact absurd hplain (by decide)

end QueueManager
end Goby
