import Mathlib.Data.Int.Notation
import Mathlib.Data.List.Induction
import Mathlib.Logic.Function.Basic
import Mathlib.Tactic.Common

/-! A socket can pass on the messages of a marshalling scheme and an identifier no more often than
once in an interval, the blackout. There is an interval for each of these pairs, and a global one
for all of them. Times and durations are numbers of ticks; `not_a_date_time` as a duration and
`neg_infin` as a time are `none`. -/

namespace Goby.ZeroMQ

inductive MarshallingScheme where
  | unknown | cstr | protobuf | ccl | moos | dccl | lcm
  deriving DecidableEq

abbrev Key := MarshallingScheme × String

structure BlackoutInfo where
  blackoutInterval : Option ℤ := none
  lastPostTime : Option ℤ := none
  deriving DecidableEq

structure ZeroMQSocket where
  globalBlackout : Option ℤ := none
  localBlackoutSet : Bool := false
  globalBlackoutSet : Bool := false
  blackoutInfo : Key → Option BlackoutInfo := fun _ => none

namespace ZeroMQSocket

def setGlobalBlackout (s : ZeroMQSocket) (duration : ℤ) : ZeroMQSocket :=
  { s with globalBlackout := some duration, globalBlackoutSet := true }

def clearGlobalBlackout (s : ZeroMQSocket) : ZeroMQSocket :=
  { s with globalBlackout := none, globalBlackoutSet := false }

def setBlackout (s : ZeroMQSocket) (key : Key) (duration : ℤ) : ZeroMQSocket :=
  { s with
    blackoutInfo := Function.update s.blackoutInfo key (some { blackoutInterval := some duration })
    localBlackoutSet := true }

def clearBlackout (s : ZeroMQSocket) (key : Key) : ZeroMQSocket :=
  { s with blackoutInfo := Function.update s.blackoutInfo key none, localBlackoutSet := false }

def infoOf (s : ZeroMQSocket) (key : Key) : BlackoutInfo := (s.blackoutInfo key).getD {}

/-- `this_time - last_post_time > interval`: false if the interval is `not_a_date_time`, and true
of any other if the time is `neg_infin`. -/
def elapsed (thisTime : ℤ) (lastPostTime interval : Option ℤ) : Bool :=
  match interval, lastPostTime with
  | none, _ => false
  | some _, none => true
  | some d, some last => thisTime - last > d

/-- The socket behind a call of `check_blackout`, and whether the message is passed on. -/
def checkBlackout (s : ZeroMQSocket) (key : Key) (thisTime : ℤ) : ZeroMQSocket × Bool :=
  if ¬ s.localBlackoutSet ∧ ¬ s.globalBlackoutSet then (s, true)
  else
    let info := s.infoOf key
    let store (info : BlackoutInfo) : ZeroMQSocket :=
      { s with blackoutInfo := Function.update s.blackoutInfo key (some info) }
    if s.localBlackoutSet ∧ elapsed thisTime info.lastPostTime info.blackoutInterval then
      (store { info with lastPostTime := some thisTime }, true)
    else if s.globalBlackoutSet ∧ elapsed thisTime info.lastPostTime s.globalBlackout then
      (store { info with lastPostTime := some thisTime }, true)
    else (store info, false)

end ZeroMQSocket

inductive Call where
  | setBlackout (key : Key) (duration : ℤ)
  | clearBlackout (key : Key)
  | setGlobalBlackout (duration : ℤ)
  | clearGlobalBlackout
  | arrival (key : Key) (time : ℤ)

def ZeroMQSocket.perform (s : ZeroMQSocket) : Call → ZeroMQSocket
  | .setBlackout key duration => s.setBlackout key duration
  | .clearBlackout key => s.clearBlackout key
  | .setGlobalBlackout duration => s.setGlobalBlackout duration
  | .clearGlobalBlackout => s.clearGlobalBlackout
  | .arrival key time => (s.checkBlackout key time).1

/-- The blackouts that are set and not cleared. -/
structure Settings where
  localBlackout : Key → Option ℤ := fun _ => none
  globalBlackout : Option ℤ := none

namespace Settings

def inForce (w : Settings) (key : Key) : Option ℤ := (w.localBlackout key).or w.globalBlackout

def perform (w : Settings) : Call → Settings
  | .setBlackout key duration =>
      { w with localBlackout := Function.update w.localBlackout key (some duration) }
  | .clearBlackout key => { w with localBlackout := Function.update w.localBlackout key none }
  | .setGlobalBlackout duration => { w with globalBlackout := some duration }
  | .clearGlobalBlackout => { w with globalBlackout := none }
  | .arrival _ _ => w

end Settings

def socketAfter (calls : List Call) : ZeroMQSocket := calls.foldl ZeroMQSocket.perform {}

def settingsAfter (calls : List Call) : Settings := calls.foldl Settings.perform {}

def passedOn (before : List Call) (key : Key) (time : ℤ) : Bool :=
  ((socketAfter before).checkBlackout key time).2

structure BlackoutLaw (calls : List Call) : Prop where
  /-- Without an interval in force, a message is passed on. -/
  unrestricted : ∀ before after key time, calls = before ++ .arrival key time :: after →
    (settingsAfter before).inForce key = none → passedOn before key time = true
  /-- Messages passed on one after the other while an interval stays in force are further apart
  than that. -/
  apart : ∀ before between after key time time' d,
    calls = before ++ .arrival key time :: (between ++ .arrival key time' :: after) →
    passedOn before key time = true →
    passedOn (before ++ .arrival key time :: between) key time' = true →
    (∀ first rest t, between = first ++ .arrival key t :: rest →
      passedOn (before ++ .arrival key time :: first) key t = false) →
    (∀ first, first <+: between →
      (settingsAfter (before ++ .arrival key time :: first)).inForce key = some d) →
    d < time' - time
  /-- A message that comes later than the interval in force after all those before it is passed
  on. -/
  late : ∀ before after key time d, calls = before ++ .arrival key time :: after →
    (settingsAfter before).inForce key = some d →
    (∀ t, .arrival key t ∈ before → d < time - t) → passedOn before key time = true

/-- A call that the shared flag and the order of the two tests do no harm to: a blackout is
cleared when no other pair has one; what is set or cleared changes the interval in force, since
the time of the last message is lost; and at an arrival the global blackout is no shorter than the
local one, and is set if only other pairs have a local one. -/
def Harmless (w : Settings) : Call → Prop
  | .setBlackout key duration => w.inForce key ≠ some duration
  | .clearBlackout key => (∀ other, other ≠ key → w.localBlackout other = none) ∧
      ∀ d, w.inForce key = some d → w.globalBlackout ≠ some d
  | .setGlobalBlackout _ | .clearGlobalBlackout => True
  | .arrival key _ =>
      (∀ d g, w.localBlackout key = some d → w.globalBlackout = some g → d ≤ g) ∧
      ((∃ other, w.localBlackout other ≠ none) → w.inForce key ≠ none)

def HarmlessFrom (w : Settings) : List Call → Prop
  | [] => True
  | c :: calls => Harmless w c ∧ HarmlessFrom (w.perform c) calls

structure Tracks (w : Settings) (s : ZeroMQSocket) : Prop where
  localSet : s.localBlackoutSet = true ↔ ∃ key, w.localBlackout key ≠ none
  globalSet : s.globalBlackoutSet = w.globalBlackout.isSome
  global : s.globalBlackout = w.globalBlackout
  interval : ∀ key, (s.infoOf key).blackoutInterval = w.localBlackout key

theorem tracks_init : Tracks {} {} := by
  constructor <;> simp [ZeroMQSocket.infoOf]

@[simp] theorem infoOf_update (s : ZeroMQSocket) (key key' : Key) (info : Option BlackoutInfo) :
    ({ s with blackoutInfo := Function.update s.blackoutInfo key info } : ZeroMQSocket).infoOf key' =
      if key' = key then info.getD {} else s.infoOf key' := by
  by_cases h : key' = key <;> simp [ZeroMQSocket.infoOf, h]

variable {w : Settings} {s : ZeroMQSocket} {key : Key} {calls : List Call}

/-- While either flag is set, the time is recorded of a message that is passed on, and of no
other. -/
theorem checkBlackout_cases (s : ZeroMQSocket) (key : Key) (time : ℤ) :
    (¬ s.localBlackoutSet ∧ ¬ s.globalBlackoutSet) ∧ s.checkBlackout key time = (s, true) ∨
    ∃ passed : Bool, s.checkBlackout key time =
      ({ s with blackoutInfo := Function.update s.blackoutInfo key (some { s.infoOf key with
          lastPostTime := if passed then some time else (s.infoOf key).lastPostTime }) }, passed) := by
  unfold ZeroMQSocket.checkBlackout
  split
  next hunset => exact .inl ⟨hunset, rfl⟩
  · right
    dsimp only
    split
    · exact ⟨true, rfl⟩
    · split
      · exact ⟨true, rfl⟩
      · exact ⟨false, rfl⟩

theorem lastPostTime_checkBlackout (key : Key) (time : ℤ)
    (hset : s.localBlackoutSet = true ∨ s.globalBlackoutSet = true) :
    ((s.checkBlackout key time).1.infoOf key).lastPostTime =
      if (s.checkBlackout key time).2 then some time else (s.infoOf key).lastPostTime := by
  rcases checkBlackout_cases s key time with ⟨hunset, -⟩ | ⟨passed, heq⟩
  · exact absurd hset (not_or.mpr hunset)
  · rw [heq, infoOf_update, if_pos rfl]
    rfl

theorem elapsed_mono {time d g : ℤ} {last : Option ℤ} (hdg : d ≤ g)
    (h : ZeroMQSocket.elapsed time last (some g) = true) :
    ZeroMQSocket.elapsed time last (some d) = true := by
  cases last with
  | none => rfl
  | some last =>
    simp only [ZeroMQSocket.elapsed, decide_eq_true_eq] at h ⊢
    omega

theorem Tracks.set (h : Tracks w s) {d : ℤ} (hd : w.inForce key = some d) :
    s.localBlackoutSet = true ∨ s.globalBlackoutSet = true := by
  cases hlocal : w.localBlackout key with
  | some d' => exact .inl (h.localSet.mpr ⟨key, by simp [hlocal]⟩)
  | none =>
    have hglobal : w.globalBlackout = some d := by simpa [Settings.inForce, hlocal] using hd
    exact .inr (by simp [h.globalSet, hglobal])

/-- A message is passed on if the interval in force, if any, has elapsed since the last one. -/
theorem Tracks.passed_iff (h : Tracks w s) {time : ℤ} (hc : Harmless w (.arrival key time)) :
    (s.checkBlackout key time).2 = true ↔
      ∀ d, w.inForce key = some d →
        ZeroMQSocket.elapsed time (s.infoOf key).lastPostTime (some d) = true := by
  have hinterval := h.interval key
  cases hlocal : w.localBlackout key with
  | some d =>
    have hset : s.localBlackoutSet = true := h.localSet.mpr ⟨key, by simp [hlocal]⟩
    have hforce : w.inForce key = some d := by simp [Settings.inForce, hlocal]
    rw [hlocal] at hinterval
    cases hpast : ZeroMQSocket.elapsed time (s.infoOf key).lastPostTime (some d) with
    | true => simp [ZeroMQSocket.checkBlackout, hset, hinterval, hpast, hforce]
    | false =>
      -- then the global blackout, which is no shorter, has not elapsed either
      have hglobal : ∀ g, w.globalBlackout = some g →
          ZeroMQSocket.elapsed time (s.infoOf key).lastPostTime (some g) = false := fun g hg =>
        Bool.eq_false_iff.mpr fun hlong => by
          simp [elapsed_mono (hc.1 d g hlocal hg) hlong] at hpast
      cases hg : w.globalBlackout with
      | none =>
        simp [ZeroMQSocket.checkBlackout, hset, hinterval, hpast, hforce, h.globalSet, hg]
      | some g =>
        simp [ZeroMQSocket.checkBlackout, hset, hinterval, hpast, hforce, h.globalSet, h.global, hg,
          hglobal g hg]
  | none =>
    have hforce : w.inForce key = w.globalBlackout := by simp [Settings.inForce, hlocal]
    have hpast : ZeroMQSocket.elapsed time (s.infoOf key).lastPostTime none = false := rfl
    rw [hlocal] at hinterval
    cases hg : w.globalBlackout with
    | none =>
      have hset : s.localBlackoutSet = false := Bool.eq_false_iff.mpr fun hset =>
        hc.2 (h.localSet.mp hset) (by rw [hforce, hg])
      simp [ZeroMQSocket.checkBlackout, hset, h.globalSet, hg, hforce]
    | some g =>
      cases hpast' : ZeroMQSocket.elapsed time (s.infoOf key).lastPostTime (some g) <;>
        simp [ZeroMQSocket.checkBlackout, h.globalSet, h.global, hg, hforce, hinterval, hpast, hpast']

theorem interval_update (h : ∀ key', (s.infoOf key').blackoutInterval = w.localBlackout key')
    (info : Option BlackoutInfo) (key' : Key) :
    (({ s with blackoutInfo := Function.update s.blackoutInfo key info } : ZeroMQSocket).infoOf
        key').blackoutInterval =
      Function.update w.localBlackout key (info.getD {}).blackoutInterval key' := by
  by_cases hkey : key' = key
  · simp [hkey]
  · simp [hkey, h key']

theorem Tracks.perform (h : Tracks w s) {c : Call} (hc : Harmless w c) :
    Tracks (w.perform c) (s.perform c) := by
  cases c with
  | setBlackout key duration =>
    refine ⟨⟨fun _ => ⟨key, ?_⟩, fun _ => rfl⟩, h.globalSet, h.global, interval_update h.interval _⟩
    simp [Settings.perform]
  | clearBlackout key =>
    refine ⟨⟨nofun, fun ⟨key', hkey'⟩ => ?_⟩, h.globalSet, h.global, interval_update h.interval _⟩
    by_cases hkey : key' = key <;> simp [Settings.perform, hkey] at hkey'
    exact absurd (hc.1 key' hkey) hkey'
  | setGlobalBlackout duration => exact ⟨h.localSet, rfl, rfl, h.interval⟩
  | clearGlobalBlackout => exact ⟨h.localSet, rfl, rfl, h.interval⟩
  | arrival key time =>
    rw [ZeroMQSocket.perform]
    rcases checkBlackout_cases s key time with ⟨-, heq⟩ | ⟨passed, heq⟩ <;> rw [heq]
    · exact h
    · refine ⟨h.localSet, h.globalSet, h.global, fun key' => ?_⟩
      exact (interval_update h.interval _ key').trans
        (congrFun (Function.update_eq_self_iff.mpr (h.interval key)) key')

theorem socketAfter_concat (calls : List Call) (c : Call) :
    socketAfter (calls ++ [c]) = (socketAfter calls).perform c := by
  simp [socketAfter]

theorem settingsAfter_concat (calls : List Call) (c : Call) :
    settingsAfter (calls ++ [c]) = (settingsAfter calls).perform c := by
  simp [settingsAfter]

theorem harmlessFrom_append {calls calls' : List Call} :
    HarmlessFrom w (calls ++ calls') ↔
      HarmlessFrom w calls ∧ HarmlessFrom (calls.foldl Settings.perform w) calls' := by
  induction calls generalizing w with
  | nil => simp [HarmlessFrom]
  | cons c calls ih => simp [HarmlessFrom, ih, and_assoc]

theorem harmless_of_append {before after : List Call} {c : Call}
    (h : HarmlessFrom {} (before ++ c :: after)) : Harmless (settingsAfter before) c :=
  (harmlessFrom_append.mp h).2.1

theorem tracks_after (h : HarmlessFrom {} calls) :
    Tracks (settingsAfter calls) (socketAfter calls) := by
  induction calls using List.reverseRecOn with
  | nil => exact tracks_init
  | append_singleton calls c ih =>
    rw [settingsAfter_concat, socketAfter_concat]
    exact (ih (harmlessFrom_append.mp h).1).perform (harmless_of_append h)

theorem lastPostTime_perform (s : ZeroMQSocket) (key : Key) (c : Call) :
    ((s.perform c).infoOf key).lastPostTime = (s.infoOf key).lastPostTime ∨
      (∃ d, c = .setBlackout key d) ∨ c = .clearBlackout key ∨ ∃ t, c = .arrival key t := by
  cases c with
  | setGlobalBlackout duration => exact .inl rfl
  | clearGlobalBlackout => exact .inl rfl
  | setBlackout key' d =>
    by_cases hkey : key = key'
    · exact .inr (.inl ⟨d, by rw [hkey]⟩)
    · exact .inl (congrArg BlackoutInfo.lastPostTime ((infoOf_update ..).trans (if_neg hkey)))
  | clearBlackout key' =>
    by_cases hkey : key = key'
    · exact .inr (.inr (.inl (by rw [hkey])))
    · exact .inl (congrArg BlackoutInfo.lastPostTime ((infoOf_update ..).trans (if_neg hkey)))
  | arrival key' t =>
    by_cases hkey : key = key'
    · exact .inr (.inr (.inr ⟨t, by rw [hkey]⟩))
    · left
      rw [ZeroMQSocket.perform]
      rcases checkBlackout_cases s key' t with ⟨-, heq⟩ | ⟨passed, heq⟩ <;> rw [heq]
      rw [infoOf_update, if_neg hkey]

theorem arrival_of_lastPostTime {t : ℤ}
    (h : ((socketAfter calls).infoOf key).lastPostTime = some t) : .arrival key t ∈ calls := by
  induction calls using List.reverseRecOn with
  | nil => simp [socketAfter, ZeroMQSocket.infoOf] at h
  | append_singleton calls c ih =>
    rw [socketAfter_concat] at h
    have hbefore : ((socketAfter calls).infoOf key).lastPostTime = some t →
        .arrival key t ∈ calls ++ [c] := fun hlast => List.mem_append_left _ (ih hlast)
    rcases lastPostTime_perform (socketAfter calls) key c with
      hsame | ⟨d, rfl⟩ | rfl | ⟨t', rfl⟩
    · exact hbefore (hsame ▸ h)
    · simp [ZeroMQSocket.perform, ZeroMQSocket.setBlackout, ZeroMQSocket.infoOf] at h
    · simp [ZeroMQSocket.perform, ZeroMQSocket.clearBlackout, ZeroMQSocket.infoOf] at h
    · rw [ZeroMQSocket.perform] at h
      rcases checkBlackout_cases (socketAfter calls) key t' with ⟨-, heq⟩ | ⟨passed, heq⟩ <;> rw [heq] at h
      · exact hbefore h
      · cases passed with
        | false => exact hbefore (by simpa using h)
        | true =>
          obtain rfl : t' = t := by simpa using h
          simp

/-- While the interval stays in force and no further message of the pair is passed on, the time
of the last one stays recorded. -/
theorem lastPostTime_kept {before between : List Call} {time d : ℤ}
    (h : HarmlessFrom {} (before ++ .arrival key time :: between))
    (hpassed : passedOn before key time = true)
    (hblocked : ∀ first rest t, between = first ++ .arrival key t :: rest →
      passedOn (before ++ .arrival key time :: first) key t = false)
    (hforce : ∀ first, first <+: between →
      (settingsAfter (before ++ .arrival key time :: first)).inForce key = some d) :
    ((socketAfter (before ++ .arrival key time :: between)).infoOf key).lastPostTime = some time := by
  induction between using List.reverseRecOn with
  | nil =>
    have hd : (settingsAfter before).inForce key = some d := by
      simpa [settingsAfter_concat, Settings.perform] using hforce [] (List.nil_prefix)
    have hset := (tracks_after (harmlessFrom_append.mp h).1).set hd
    rw [socketAfter_concat]
    exact (lastPostTime_checkBlackout key time hset).trans (if_pos hpassed)
  | append_singleton between c ih =>
    have hsplit : before ++ .arrival key time :: (between ++ [c]) =
        (before ++ .arrival key time :: between) ++ [c] := by simp
    have hlast := ih (harmlessFrom_append.mp (hsplit ▸ h)).1
      (fun first rest t he => hblocked first (rest ++ [c]) t (by simp [he]))
      (fun first hfirst => hforce first (hfirst.trans (List.prefix_append ..)))
    have hd := hforce between (List.prefix_append ..)
    have hd' := hforce (between ++ [c]) List.prefix_rfl
    have hharmless := harmless_of_append (hsplit ▸ h)
    rw [hsplit] at hd' ⊢
    rw [settingsAfter_concat] at hd'
    rw [socketAfter_concat]
    rcases lastPostTime_perform (socketAfter (before ++ .arrival key time :: between)) key c with
      hsame | ⟨d', rfl⟩ | rfl | ⟨t, rfl⟩
    · rw [hsame, hlast]
    · -- the interval would be set once more
      have heq : d' = d := by simpa [Settings.perform, Settings.inForce] using hd'
      exact absurd hd (heq ▸ hharmless)
    · -- the global blackout would take the place of an equal local one
      have hglobal : (settingsAfter (before ++ .arrival key time :: between)).globalBlackout = some d := by
        simpa [Settings.perform, Settings.inForce] using hd'
      exact absurd hglobal (hharmless.2 d hd)
    · have hset := (tracks_after (harmlessFrom_append.mp (hsplit ▸ h)).1).set hd
      have hstop := hblocked between [] t rfl
      exact (lastPostTime_checkBlackout key t hset).trans
        ((if_neg (Bool.eq_false_iff.mp hstop)).trans hlast)

/-! Two identifiers of one marshalling scheme. -/

def navKey : Key := (.cstr, "nav")
def ctdKey : Key := (.cstr, "ctd")

/-- A local blackout of six ticks, and then a global one. -/
def sampleCalls : List Call :=
  [.setBlackout navKey 6, .arrival navKey 0, .arrival navKey 5, .arrival navKey 7, .clearBlackout navKey,
    .arrival ctdKey 7, .setGlobalBlackout 6, .arrival ctdKey 8, .arrival navKey 8, .arrival ctdKey 15]

/-- If all calls are harmless, blackouts do what they are for. -/
theorem blackoutLaw_of_harmless (calls : List Call) (h : HarmlessFrom {} calls) : BlackoutLaw calls := by
  refine ⟨?_, ?_, ?_⟩
  · rintro before after key time rfl hnone
    have htracks := tracks_after (harmlessFrom_append.mp h).1
    exact (htracks.passed_iff (harmless_of_append h)).mpr (by simp [hnone])
  · rintro before between after key time time' d rfl hpassed hpassed' hblocked hforce
    rw [show before ++ .arrival key time :: (between ++ .arrival key time' :: after) =
      (before ++ .arrival key time :: between) ++ .arrival key time' :: after by simp] at h
    have hbefore := (harmlessFrom_append.mp h).1
    have hlast := lastPostTime_kept hbefore hpassed hblocked hforce
    have helapsed := ((tracks_after hbefore).passed_iff (harmless_of_append h)).mp hpassed' d
      (hforce between List.prefix_rfl)
    simpa [hlast, ZeroMQSocket.elapsed] using helapsed
  · rintro before after key time d rfl hd hlate
    have htracks := tracks_after (harmlessFrom_append.mp h).1
    refine (htracks.passed_iff (harmless_of_append h)).mpr fun d' hd' => ?_
    obtain rfl : d = d' := Option.some.inj (hd.symm.trans hd')
    cases hlast : ((socketAfter before).infoOf key).lastPostTime with
    | none => rfl
    | some t => simpa [ZeroMQSocket.elapsed] using hlate t (arrival_of_lastPostTime hlast)

theorem blackoutLaw_sampleCalls : HarmlessFrom {} sampleCalls ∧ BlackoutLaw sampleCalls := by
  have hharmless : HarmlessFrom {} sampleCalls := by
    simp +contextual [sampleCalls, HarmlessFrom, Harmless, Settings.perform, Settings.inForce]
  exact ⟨hharmless, blackoutLaw_of_harmless sampleCalls hharmless⟩

/-- Another pair's blackout stops a pair that has none. -/
def blockedCalls : List Call := [.setBlackout navKey 6, .arrival ctdKey 0]

/-- Another pair's blackout is cleared, and with it that of the pair. -/
def clearedCalls : List Call :=
  [.setBlackout navKey 10, .setBlackout ctdKey 10, .arrival navKey 0, .clearBlackout ctdKey,
    .arrival navKey 1]

/-- The global blackout is shorter than that of the pair. -/
def shorterCalls : List Call :=
  [.setBlackout navKey 10, .setGlobalBlackout 5, .arrival navKey 0, .arrival navKey 7]

/-- Once another pair's blackout is cleared, the global blackout takes precedence. -/
def longerCalls : List Call :=
  [.setBlackout navKey 1, .setBlackout ctdKey 1, .setGlobalBlackout 10, .clearBlackout ctdKey,
    .arrival navKey 0, .arrival navKey 5]

/-- A blackout is set again while it is in force. -/
def repeatedCalls : List Call :=
  [.setBlackout navKey 10, .arrival navKey 0, .setBlackout navKey 10, .arrival navKey 1]

/-- A case of the law with at most one call, no arrival, between two messages. -/
theorem BlackoutLaw.apart_of_length (h : BlackoutLaw calls)
    (before between : List Call) {time time' d : ℤ}
    (hcalls : calls = before ++ .arrival key time :: (between ++ [.arrival key time']))
    (hlength : between.length ≤ 1) (hno : ∀ t, .arrival key t ∉ between)
    (hpassed : passedOn before key time = true)
    (hpassed' : passedOn (before ++ .arrival key time :: between) key time' = true)
    (hforce : (settingsAfter (before ++ [.arrival key time])).inForce key = some d)
    (hforce' : (settingsAfter (before ++ .arrival key time :: between)).inForce key = some d) :
    d < time' - time := by
  refine h.apart before between [] key time time' d hcalls hpassed hpassed' ?_ ?_
  · rintro first rest t rfl
    exact absurd (by simp) (hno t)
  · intro first hfirst
    rcases Nat.lt_or_ge first.length between.length with hlt | hge
    · obtain rfl : first = [] := List.length_eq_zero_iff.mp (by omega)
      exact hforce
    · rw [hfirst.eq_of_length_le hge]
      exact hforce'

theorem not_blackoutLaw :
    ¬ BlackoutLaw blockedCalls ∧ ¬ BlackoutLaw clearedCalls ∧ ¬ BlackoutLaw shorterCalls ∧
      ¬ BlackoutLaw longerCalls ∧ ¬ BlackoutLaw repeatedCalls := by
  refine ⟨fun h => ?_, fun h => ?_, fun h => ?_, fun h => ?_, fun h => ?_⟩
  · have hpassed := h.unrestricted [.setBlackout navKey 6] [] ctdKey 0 rfl (by decide)
    exact absurd hpassed (by decide)
  · have hapart : (10 : ℤ) < 1 - 0 := h.apart_of_length
      [.setBlackout navKey 10, .setBlackout ctdKey 10] [.clearBlackout ctdKey]
      rfl (by decide) (by simp) (by decide) (by decide) (by decide) (by decide)
    exact absurd hapart (by decide)
  · have hapart : (10 : ℤ) < 7 - 0 := h.apart_of_length
      [.setBlackout navKey 10, .setGlobalBlackout 5] []
      rfl (by decide) (by simp) (by decide) (by decide) (by decide) (by decide)
    exact absurd hapart (by decide)
  · have hpassed := h.late [.setBlackout navKey 1, .setBlackout ctdKey 1, .setGlobalBlackout 10,
      .clearBlackout ctdKey, .arrival navKey 0] [] navKey 5 1 rfl (by decide) (by simp)
    exact absurd hpassed (by decide)
  · have hapart : (10 : ℤ) < 1 - 0 := h.apart_of_length
      [.setBlackout navKey 10] [.setBlackout navKey 10]
      rfl (by decide) (by simp) (by decide) (by decide) (by decide) (by decide)
    exact absurd hapart (by decide)

end Goby.ZeroMQ
