import Goby.CyclicSchedules
import Goby.QueueOperations

/-! `MACManager` is a list of slots with a timer. An update computes from the clock when the
next cycle begins, goes back to its first slot or, in the middle of a cycle, to the next slot
that is still to come, and sets the timer; each time the timer expires, the current slot
starts and the timer is set to the next one. Each function follows the member function with
its name. Every reading of the clock is a parameter, in microseconds; doubles are exact. -/

namespace Goby

inductive MacType where
  | none | fixedDecentralized | polled
  deriving DecidableEq

inductive MacRefTime where
  | startOfDay | fixed
  deriving DecidableEq

structure MacConfig where
  modemId : ℤ := 0
  type : MacType := .none
  slot : List ModemTransmission := []
  startCycleInMiddle : Bool := true
  refTimeType : MacRefTime := .startOfDay
  fixedRefTime : ℤ := 0

inductive MacEvent where
  | initiateTransmission (s : ModemTransmission)
  | slotStart (s : ModemTransmission)
  deriving DecidableEq

/-- The current slot is known by its index; an index past the end is an iterator that may
not be dereferenced. `timer` is the time for which the timer is set. -/
structure MacManager where
  cfg : MacConfig := {}
  slots : List ModemTransmission := []
  currentSlot : ℕ := 0
  nextSlotT : Ptime := none
  startedUp : Bool := false
  timer : Option Ptime := none

/-- `unix_double2ptime` of a whole number of seconds. -/
def unixDouble2ptime (givenTime : ℤ) : Ptime :=
  if givenTime = -1 then none else some (givenTime * 1000000)

/-- `as<uint64>` of a time. -/
def ptime2unixMicrosec : Ptime → ℕ
  | none => 2 ^ 64 - 1
  | some t => (t % 2 ^ 64).toNat

/-- `as<double>` of a time: seconds. -/
def ptime2unixDouble : Ptime → ℚ
  | none => -1
  | some t => t / 1000000

/-- Conversion of a double to `unsigned`, which is only defined for values in range. -/
def double2unsigned (x : ℚ) : Except Failure ℕ :=
  if -1 < x ∧ x < 2 ^ 32 then .ok (truncate x).toNat else .error .undefined

def microsecondsPerDay : ℤ := 86400000000

def startOfDay (now : ℤ) : ℤ := now / microsecondsPerDay * microsecondsPerDay

def MacConfig.reference (cfg : MacConfig) (now : ℤ) : Ptime :=
  match cfg.refTimeType with
  | .startOfDay => some (startOfDay now)
  | .fixed => unixDouble2ptime cfg.fixedRefTime

def MacConfig.indexedSlots (cfg : MacConfig) : List ModemTransmission :=
  cfg.slot.zipIdx.map (fun e => { e.1 with slotIndex := some e.2 })

/-- `microseconds(slot_seconds() * 1e6)`. -/
def slotMicroseconds (slot : ModemTransmission) : ℤ := truncate (slot.slotSeconds * 1000000)

namespace MacManager

variable (m : MacManager)

def restartTimer : MacManager := { m with timer := some m.nextSlotT }

def stopTimer : MacManager := { m with timer := none }

def cycleDuration : ℚ :=
  m.slots.foldl (fun length slot => length + slot.slotSeconds) 0

def incrementSlot : Except Failure MacManager :=
  if m.cfg.type = .none then .ok m
  else match m.slots[m.currentSlot]? with
    | none => .error .undefined
    | some slot => .ok { m with
        nextSlotT := m.nextSlotT.addMicroseconds (slotMicroseconds slot)
        currentSlot := if m.currentSlot + 1 = m.slots.length then 0 else m.currentSlot + 1 }

def nextCycleTime (now : ℤ) : Except Failure Ptime :=
  match m.cfg.reference now with
  -- whatever is computed from it is not a time either
  | none => .ok none
  | some reference =>
    if m.cycleDuration = 0 then .error .undefined
    else do
      let microsecSinceReference := now - reference
      let cyclesSinceReference ←
        double2unsigned (microsecSinceReference / (m.cycleDuration * 1000000) + 1)
      let secsToNext := cyclesSinceReference * m.cycleDuration
      pure (some (reference + truncate secsToNext * 1000000 +
        truncate ((secsToNext - ⌊secsToNext⌋) * 1000000)))

def skipSlots (now : ℤ) : ℕ → MacManager → Except Failure MacManager
  | 0, m => if m.nextSlotT.lt (some now) then .error .fuel else .ok m
  | fuel + 1, m =>
    if m.nextSlotT.lt (some now) then m.incrementSlot >>= skipSlots now fuel else .ok m

/-- The number of rounds after which the loop has ended, if it ends at all: a cycle takes at
least a microsecond. -/
def skipFuel (now : ℤ) (m : MacManager) : ℕ :=
  ((m.nextSlotT.map (fun t => (now - t).toNat)).getD 0 + 1) * m.slots.length

/-- Steps back a cycle and skips the slots that are past. -/
def startInMiddle (now : ℤ) (m : MacManager) : Except Failure MacManager :=
  let m := { m with nextSlotT := m.nextSlotT.addMicroseconds (-truncate (m.cycleDuration * 1000000)) }
  skipSlots now (m.skipFuel now) m

def inMiddle : Prop :=
  m.cfg.startCycleInMiddle = true ∧ m.slots.length > 1 ∧ m.cfg.type ≠ .none

instance (m : MacManager) : Decidable m.inMiddle := inferInstanceAs (Decidable (_ ∧ _))

/-- Where the next cycle is not awaited, the slots of this one that are past are skipped. -/
def joinCycle (now : ℤ) (m : MacManager) : Except Failure MacManager :=
  if m.inMiddle then m.startInMiddle now else .ok m

/-- The update reads the clock for the next cycle, and again for the slots to skip. -/
def update (now₁ now₂ : ℤ) (m : MacManager) : Except Failure MacManager :=
  if m.slots.length = 0 then .ok m.stopTimer
  else do
    let next ← m.nextCycleTime now₁
    let m ← joinCycle now₂ { m with currentSlot := 0, nextSlotT := next }
    pure (if m.startedUp then m.restartTimer else m)

def restart (now₁ now₂ : ℤ) (m : MacManager) : Except Failure MacManager :=
  if m.startedUp then .ok m else update now₁ now₂ { m with startedUp := true }

/-- Filling the list anew invalidates the current slot. -/
def startup (cfg : MacConfig) (now₁ now₂ : ℤ) (m : MacManager) : Except Failure MacManager :=
  if cfg.type = .none then .ok { m with cfg := cfg }
  else restart now₁ now₂ { m with
    cfg := cfg
    slots := cfg.indexedSlots
    currentSlot := cfg.indexedSlots.length }

def shutdown : MacManager :=
  { m.stopTimer with currentSlot := 0, startedUp := false }

def weAreTransmitting (s : ModemTransmission) : Bool :=
  match m.cfg.type with
  | .fixedDecentralized => s.src = m.cfg.modemId || s.alwaysInitiate
  | .polled => s.src ≠ broadcastId
  | .none => true

def allowedSkewSeconds : ℚ := 2

/-- The timer has expired. With too much skew, the manager only updates. -/
def beginSlot (now now₁ now₂ : ℤ) (m : MacManager) : Except Failure (MacManager × List MacEvent) :=
  if |(now / 1000000 : ℚ) - ptime2unixDouble m.nextSlotT| > allowedSkewSeconds then do
    let m ← update now₁ now₂ m.stopTimer
    pure (m, [])
  else match m.slots[m.currentSlot]? with
    | none => .error .undefined
    | some slot => do
      let s := { slot with time := some (ptime2unixMicrosec m.nextSlotT) }
      let m' ← m.incrementSlot
      pure (m'.restartTimer,
        (if m.weAreTransmitting s then [.initiateTransmission s] else []) ++ [.slotStart s])

end MacManager
end Goby
