import Goby.TransmissionMessages

/-! `DCCLCodec` wraps a `dccl::Codec` object. Its configuration is applied to that object
by `process_cfg`, which may replace the object: a new one has no passphrase. The
wrapper remembers the libraries and descriptors to load again after a replacement. -/

namespace Goby

structure Codec (Desc : Type) where
  settings : CodecSettings
  libraries : List ℕ := []
  messages : List Desc := []

def Codec.new {Desc : Type} (identifier : String) : Codec Desc := { settings := { idCodec := identifier } }

def Codec.cryptoPassphrase {Desc : Type} (c : Codec Desc) : Option String :=
  c.settings.crypto.map Prod.fst

structure DcclCodec (Desc : Type) where
  cfg : DcclConfig := {}
  codec : Codec Desc
  loadedLibs : List ℕ := []
  loadedMsgs : List Desc := []

namespace DcclCodec

variable {Desc Msg : Type}

/-- The singleton as first constructed, with the default identifier codec. -/
def initial (defaultIdCodec : String) : DcclCodec Desc := { codec := Codec.new defaultIdCodec }

variable (c : DcclCodec Desc)

def loadSharedLibraryCodecs (handle : ℕ) : DcclCodec Desc :=
  { c with
    codec := { c.codec with libraries := c.codec.libraries ++ [handle] }
    loadedLibs := c.loadedLibs.insert handle }

theorem loadLibs_frame (handles : List ℕ) (c : DcclCodec Desc) :
    (handles.foldl loadSharedLibraryCodecs c).codec.settings = c.codec.settings ∧
      (handles.foldl loadSharedLibraryCodecs c).cfg = c.cfg := by
  induction handles generalizing c with
  | nil => exact ⟨rfl, rfl⟩
  | cons h handles ih => exact ih (c.loadSharedLibraryCodecs h)

variable [DecidableEq Desc]

def validate (lib : Library Desc Msg) (c : DcclCodec Desc) (desc : Desc) :
    Except String (DcclCodec Desc) :=
  match lib.load c.codec.settings desc with
  | .error e => .error e
  | .ok _ => .ok { c with
      codec := { c.codec with messages := c.codec.messages.insert desc }
      loadedMsgs := c.loadedMsgs.insert desc }

/-- Replaces the codec object and loads everything again; a descriptor that fails to
load is skipped with a warning. -/
def setIdCodec (lib : Library Desc Msg) (c : DcclCodec Desc) (identifier : String) :
    DcclCodec Desc :=
  let replaced := { c with codec := Codec.new identifier }
  let withLibs := c.loadedLibs.foldl loadSharedLibraryCodecs replaced
  c.loadedMsgs.foldl (fun d desc => (validate lib d desc).toOption.getD d) withLibs

def processCfg (lib : Library Desc Msg) (c : DcclCodec Desc) (newIdCodec : Bool) : DcclCodec Desc :=
  let keyed := match c.cfg.cryptoPassphrase with
    | some passphrase => { c with codec := { c.codec with settings :=
        { c.codec.settings with crypto := some (passphrase, c.cfg.skipCryptoForId) } } }
    | none => c
  match c.cfg.idCodec with
  | some identifier => if newIdCodec then setIdCodec lib keyed identifier else keyed
  | none => keyed

def setCfg (lib : Library Desc Msg) (c : DcclCodec Desc) (cfg : DcclConfig) : DcclCodec Desc :=
  processCfg lib { c with cfg := cfg } true

def mergeCfg (lib : Library Desc Msg) (c : DcclCodec Desc) (cfg : DcclConfig) : DcclCodec Desc :=
  let newIdCodec := decide (c.cfg.idCodecD ≠ cfg.idCodecD)
  processCfg lib { c with cfg := c.cfg.mergeFrom cfg } newIdCodec

section Replacement

variable (lib : Library Desc Msg)

variable (c : DcclCodec Desc)

theorem validate_frame (desc : Desc) :
    ((validate lib c desc).toOption.getD c).codec.settings = c.codec.settings ∧
      ((validate lib c desc).toOption.getD c).cfg = c.cfg := by
  unfold validate
  split <;> simp [Except.toOption]

theorem loadMsgs_frame (descs : List Desc) (c : DcclCodec Desc) :
    (descs.foldl (fun d desc => (validate lib d desc).toOption.getD d) c).codec.settings =
        c.codec.settings ∧
      (descs.foldl (fun d desc => (validate lib d desc).toOption.getD d) c).cfg = c.cfg := by
  induction descs generalizing c with
  | nil => exact ⟨rfl, rfl⟩
  | cons desc descs ih =>
    have hv := validate_frame lib c desc
    have hr := ih ((validate lib c desc).toOption.getD c)
    exact ⟨hr.1.trans hv.1, hr.2.trans hv.2⟩

/-- After a replacement the object has the new identifier codec and no passphrase. -/
@[simp] theorem setIdCodec_settings (identifier : String) :
    (c.setIdCodec lib identifier).codec.settings = { idCodec := identifier } := by
  unfold setIdCodec
  rw [(loadMsgs_frame lib _ _).1, (loadLibs_frame _ _).1]
  rfl

@[simp] theorem setIdCodec_cfg (identifier : String) :
    (c.setIdCodec lib identifier).cfg = c.cfg := by
  unfold setIdCodec
  rw [(loadMsgs_frame lib _ _).2, (loadLibs_frame _ _).2]

def Replaces (cfg : DcclConfig) (newIdCodec : Bool) : Prop :=
  newIdCodec = true ∧ cfg.idCodec.isSome

theorem processCfg_cfg (b : Bool) : (c.processCfg lib b).cfg = c.cfg := by
  cases hp : c.cfg.cryptoPassphrase <;> cases hi : c.cfg.idCodec <;> cases b <;>
    simp [processCfg, hp, hi]

theorem processCfg_of_replaces {c : DcclCodec Desc} {b : Bool} (h : Replaces c.cfg b) :
    (c.processCfg lib b).codec.settings = { idCodec := c.cfg.idCodecD } := by
  obtain ⟨rfl, hs⟩ := h
  obtain ⟨identifier, hi⟩ := Option.isSome_iff_exists.mp hs
  cases hp : c.cfg.cryptoPassphrase <;> simp [processCfg, hp, hi, DcclConfig.idCodecD]

theorem processCfg_of_not_replaces {c : DcclCodec Desc} {b : Bool} (h : ¬ Replaces c.cfg b) :
    (c.processCfg lib b).codec.settings = { c.codec.settings with
      crypto := match c.cfg.cryptoPassphrase with
        | some passphrase => some (passphrase, c.cfg.skipCryptoForId)
        | none => c.codec.settings.crypto } := by
  cases hp : c.cfg.cryptoPassphrase <;> cases hi : c.cfg.idCodec <;> cases b <;>
    simp_all [processCfg, Replaces]

end Replacement

inductive CfgCall where
  | set (cfg : DcclConfig)
  | merge (cfg : DcclConfig)

def apply (lib : Library Desc Msg) (c : DcclCodec Desc) : CfgCall → DcclCodec Desc
  | .set cfg => c.setCfg lib cfg
  | .merge cfg => c.mergeCfg lib cfg

def configured (lib : Library Desc Msg) (defaultIdCodec : String) (calls : List CfgCall) :
    DcclCodec Desc :=
  calls.foldl (apply lib) (initial defaultIdCodec)

/-- The object in use encrypts exactly as the accumulated configuration says and uses
the identifier codec it names. -/
def ConfigurationLaw : Prop :=
  c.codec.cryptoPassphrase = c.cfg.cryptoPassphrase ∧
    ∀ identifier, c.cfg.idCodec = some identifier → c.codec.settings.idCodec = identifier

/-- The condition on a call and the codec before it: a call that replaces the codec
object leaves no passphrase in the configuration, and one that keeps the object neither
takes back a passphrase the object has nor names an identifier codec it does not use. -/
def KeepsLaw : CfgCall → Prop
  | .set cfg =>
      if cfg.idCodec.isSome then cfg.cryptoPassphrase = none
      else cfg.cryptoPassphrase = none → c.codec.cryptoPassphrase = none
  | .merge cfg =>
      if c.cfg.idCodecD ≠ cfg.idCodecD then
        c.cfg.cryptoPassphrase = none ∧ cfg.cryptoPassphrase = none
      else c.cfg.idCodec = none → ∀ identifier, cfg.idCodec = some identifier →
        c.codec.settings.idCodec = identifier

omit [DecidableEq Desc] in
theorem configurationLaw_initial (defaultIdCodec : String) :
    ConfigurationLaw (initial defaultIdCodec : DcclCodec Desc) :=
  ⟨rfl, fun _ h => by cases h⟩

variable (lib : Library Desc Msg)

/-- The law after `process_cfg`, in terms of the codec before it. -/
theorem configurationLaw_processCfg (b : Bool) :
    ConfigurationLaw (c.processCfg lib b) ↔
      (Replaces c.cfg b → c.cfg.cryptoPassphrase = none) ∧
        (¬ Replaces c.cfg b → (c.cfg.cryptoPassphrase = none → c.codec.cryptoPassphrase = none) ∧
          ∀ identifier, c.cfg.idCodec = some identifier →
            c.codec.settings.idCodec = identifier) := by
  unfold ConfigurationLaw Codec.cryptoPassphrase
  rw [processCfg_cfg]
  by_cases h : Replaces c.cfg b
  · rw [processCfg_of_replaces lib h]
    simp only [Option.map_none, h, not_true_eq_false, false_implies, and_true, true_implies]
    constructor
    · rintro ⟨hp, -⟩
      exact hp.symm
    · intro hp
      refine ⟨hp.symm, ?_⟩
      intro identifier hi
      simp [DcclConfig.idCodecD, hi]
  · rw [processCfg_of_not_replaces lib h]
    cases hp : c.cfg.cryptoPassphrase <;> simp [h]

theorem configurationLaw_apply {c : DcclCodec Desc} (hc : ConfigurationLaw c) (call : CfgCall) :
    ConfigurationLaw (c.apply lib call) ↔ KeepsLaw c call := by
  cases call with
  | set cfg =>
    simp only [apply, setCfg, configurationLaw_processCfg, Replaces, true_and, KeepsLaw]
    cases hi : cfg.idCodec <;> simp
  | merge cfg =>
    simp only [apply, mergeCfg, configurationLaw_processCfg, Replaces, KeepsLaw, decide_eq_true_eq]
    by_cases hd : c.cfg.idCodecD = cfg.idCodecD
    · -- the object is kept: the law before the call settles everything but a first,
      -- explicitly empty identifier codec
      obtain ⟨hp, hid⟩ := hc
      simp only [hd, ne_eq, not_true_eq_false, false_and, false_implies, not_false_eq_true,
        true_implies, true_and, if_false]
      constructor
      · rintro ⟨-, h⟩ hnone identifier hi
        exact h identifier (by simp [DcclConfig.mergeFrom, hi])
      · intro h
        refine ⟨?_, ?_⟩
        · intro hm
          rw [hp]
          cases hcp : cfg.cryptoPassphrase <;> simp_all [DcclConfig.mergeFrom]
        · intro identifier hm
          cases hci : cfg.idCodec with
          | none => exact hid identifier (by simpa [DcclConfig.mergeFrom, hci] using hm)
          | some given =>
            have he : given = identifier := by simpa [DcclConfig.mergeFrom, hci] using hm
            cases hcc : c.cfg.idCodec with
            | none => exact he ▸ h hcc given hci
            | some stored =>
              have hs : stored = given := by simpa [DcclConfig.idCodecD, hcc, hci] using hd
              exact he ▸ hs ▸ hid stored hcc
    · -- two names can differ only if the merged configuration has an identifier codec
      have hm : (c.cfg.mergeFrom cfg).idCodec.isSome := by
        cases hcc : c.cfg.idCodec <;> cases hci : cfg.idCodec <;>
          simp_all [DcclConfig.mergeFrom, DcclConfig.idCodecD]
      have hpass : (c.cfg.mergeFrom cfg).cryptoPassphrase = none ↔
          c.cfg.cryptoPassphrase = none ∧ cfg.cryptoPassphrase = none := by
        cases hcc : c.cfg.cryptoPassphrase <;> cases hci : cfg.cryptoPassphrase <;>
          simp [DcclConfig.mergeFrom, hcc, hci]
      simp [hd, hm, hpass]

theorem configured_take_succ (defaultIdCodec : String) (calls : List CfgCall) (n : ℕ)
    (h : n < calls.length) :
    configured lib defaultIdCodec (calls.take (n + 1)) =
      (configured lib defaultIdCodec (calls.take n)).apply lib calls[n] := by
  rw [List.take_succ_eq_append_getElem h, configured, List.foldl_append]
  rfl

/-- Along any sequence of configuration calls the law holds in every state reached
exactly when every call meets the condition in the state it is made in. -/
theorem configurationLaw_run_iff (defaultIdCodec : String) (calls : List CfgCall) :
    (∀ n ≤ calls.length, ConfigurationLaw (configured lib defaultIdCodec (calls.take n))) ↔
      ∀ n (h : n < calls.length),
        KeepsLaw (configured lib defaultIdCodec (calls.take n)) calls[n] := by
  constructor
  · intro hall n h
    rw [← configurationLaw_apply lib (hall n h.le), ← configured_take_succ lib _ _ _ h]
    exact hall (n + 1) h
  · intro hall n
    induction n with
    | zero => exact fun _ => configurationLaw_initial defaultIdCodec
    | succ n ih =>
      intro hn
      rw [configured_take_succ lib _ _ _ hn]
      exact (configurationLaw_apply lib (ih (Nat.le_of_succ_le hn)) _).mpr (hall n hn)

/-- A configuration with both a passphrase and an identifier codec leaves the codec
unencrypted, and one without a passphrase does not take back an earlier passphrase. -/
theorem configurationLaw_fails :
    ¬ ConfigurationLaw (configured sampleLibrary "dccl.default.id"
        [.set { cryptoPassphrase := some "secret", idCodec := some "my_id" }]) ∧
      ¬ ConfigurationLaw (configured sampleLibrary "dccl.default.id"
        [.set { cryptoPassphrase := some "secret" }, .set {}]) := by
  constructor <;> rintro ⟨h, -⟩ <;> revert h <;> decide

end DcclCodec
end Goby
