import Goby.MacAgreement

/-! Nodes that share a cycle and have different addresses do not transmit in the same slot, and
the slots in which they transmit do not overlap. -/

namespace Goby.MacManager

variable {cfg : MacConfig} {m : MacManager} {s s' : ModemTransmission}

theorem initiateTransmission_mem_slotEvents :
    .initiateTransmission s ∈ m.slotEvents s' ↔ s = s' ∧ m.weAreTransmitting s' = true := by
  rw [slotEvents]
  split
  next h => simp [h]
  next h => simp [h]

theorem slotMicroseconds_startedSlot (hv : cfg.Valid) (reference p : ℤ) :
    slotMicroseconds (startedSlot hv reference p) = (cfg.cycle hv).duration p := by
  have hduration := (cfg.cycle hv).getElem?_slot p
  have hdurations : (cfg.cycle hv).durations = cfg.indexedSlots.map slotMicroseconds :=
    (MacConfig.indexedSlots_map slotMicroseconds fun _ _ => rfl).symm
  rw [hdurations, List.getElem?_map, MacConfig.getElem?_slot] at hduration
  exact Option.some.inj hduration

theorem alwaysInitiate_startedSlot (hv : cfg.Valid)
    (halways : ∀ slot ∈ cfg.slot, slot.alwaysInitiate = false) (reference p : ℤ) :
    (startedSlot hv reference p).alwaysInitiate = false := by
  have hmem : (MacConfig.slotNumber hv p).alwaysInitiate ∈
      cfg.indexedSlots.map ModemTransmission.alwaysInitiate :=
    List.mem_map_of_mem (List.get_mem cfg.indexedSlots _)
  rw [MacConfig.indexedSlots_map _ fun _ _ => rfl] at hmem
  obtain ⟨slot, hslot, heq⟩ := List.mem_map.mp hmem
  exact heq.symm.trans (halways slot hslot)

/-- What a node of the cycle transmits is a slot of the schedule that has its address. -/
theorem Launched.scheduled_of_initiate {id now₁ now₂ reference t : ℤ} (hv : cfg.Valid)
    (htype : cfg.type = .fixedDecentralized)
    (halways : ∀ slot ∈ cfg.slot, slot.alwaysInitiate = false)
    (h : Launched { cfg with modemId := id } now₁ now₂ (.ok m)) (hmom : Moment hv reference now₁ now₂)
    {late : ℕ → ℤ} (hl : Punctual late) (hs : Emits late m (.initiateTransmission s) t) :
    s.src = id ∧ ∃ j, (cfg.cycle hv).start reference j = t ∧ s = startedSlot hv reference j := by
  have hnone : cfg.type ≠ .none := by
    rw [htype]
    decide
  have hvId : ({ cfg with modemId := id } : MacConfig).Valid := hv
  have hmomId : Moment hvId reference now₁ now₂ :=
    ⟨hmom.isReference, hmom.past, hmom.recent, hmom.order⟩
  obtain ⟨m', hok, hcfg, hemits⟩ := h.emits_iff hnone hvId hmomId
  obtain rfl := Except.ok.inj hok
  obtain ⟨-, j, hstart, hmem⟩ := ((hemits late hl).2 _ t).mp hs
  obtain ⟨rfl, htransmit⟩ := initiateTransmission_mem_slotEvents.mp hmem
  refine ⟨?_, j, hstart, rfl⟩
  have hquiet := alwaysInitiate_startedSlot hvId halways reference j
  rw [weAreTransmitting, hcfg] at htransmit
  simp only [htype, Bool.or_eq_true, decide_eq_true_eq] at htransmit
  exact htransmit.resolve_right (ne_true_of_eq_false hquiet)

/-- Two nodes with different addresses, each started or updated at some moment and then
stepping without skew, never transmit in slots that overlap. -/
theorem transmissions_apart {idA idB : ℤ} (hid : idA ≠ idB) (hv : cfg.Valid)
    (htype : cfg.type = .fixedDecentralized)
    (halways : ∀ slot ∈ cfg.slot, slot.alwaysInitiate = false) {a₁ a₂ b₁ b₂ refA refB : ℤ}
    {nodeA nodeB : MacManager} (ha : Launched { cfg with modemId := idA } a₁ a₂ (.ok nodeA))
    (hb : Launched { cfg with modemId := idB } b₁ b₂ (.ok nodeB)) (hma : Moment hv refA a₁ a₂)
    (hmb : Moment hv refB b₁ b₂) (hday : cfg.refTimeType = .startOfDay →
      (cfg.cycle hv).total ∣ startOfDay a₁ - startOfDay b₁) {lateA lateB : ℕ → ℤ}
    (hlA : Punctual lateA) (hlB : Punctual lateB) {tA tB : ℤ}
    (hs : Emits lateA nodeA (.initiateTransmission s) tA)
    (hs' : Emits lateB nodeB (.initiateTransmission s') tB) :
    tA + slotMicroseconds s ≤ tB ∨ tB + slotMicroseconds s' ≤ tA := by
  obtain ⟨hsrcA, hA⟩ := ha.scheduled_of_initiate hv htype halways hma hlA hs
  obtain ⟨hsrcB, jB, rfl, rfl⟩ := hb.scheduled_of_initiate hv htype halways hmb hlB hs'
  have hphase := references_dvd hma.isReference hmb.isReference hday
  obtain ⟨jA, rfl, rfl⟩ := scheduled_of_dvd hv hphase hA
  have hj : jA ≠ jB := by
    rintro rfl
    exact hid (hsrcA.symm.trans hsrcB)
  rw [slotMicroseconds_startedSlot, slotMicroseconds_startedSlot]
  exact (cfg.cycle hv).start_apart refB hj

def twoAddresses : MacConfig :=
  { sampleMacConfig [] true with
    slot := [{ slotSeconds := 5, src := 1 }, { slotSeconds := 5, src := 2 }] }

theorem twoAddresses_valid : twoAddresses.Valid :=
  ⟨by decide, by simp [twoAddresses]; exact ⟨5000000, by decide, by norm_num⟩⟩

theorem twoAddresses_initiates {id now₁ now₂ : ℤ} (hmom : Moment twoAddresses_valid 0 now₁ now₂)
    {late : ℕ → ℤ} (hl : Punctual late) {j : ℤ}
    (hfollow : follows twoAddresses_valid 0 now₁ now₂ ≤
      (MacConfig.cycle twoAddresses_valid).start 0 j)
    (hsrc : (startedSlot twoAddresses_valid 0 j).src = id) :
    ∃ node, startup { twoAddresses with modemId := id } now₁ now₂ {} = .ok node ∧
      Launched { twoAddresses with modemId := id } now₁ now₂ (.ok node) ∧
      Emits late node (.initiateTransmission (startedSlot twoAddresses_valid 0 j))
        ((MacConfig.cycle twoAddresses_valid).start 0 j) := by
  have hlaunch : Launched { twoAddresses with modemId := id } now₁ now₂ _ := .new
  obtain ⟨node, hnode, hcfg, hemits⟩ := hlaunch.emits_iff MacType.noConfusion twoAddresses_valid
    ⟨hmom.isReference, hmom.past, hmom.recent, hmom.order⟩
  refine ⟨node, hnode, hnode ▸ hlaunch, ((hemits late hl).2 _ _).mpr ⟨hfollow, j, rfl, ?_⟩⟩
  refine initiateTransmission_mem_slotEvents.mpr ⟨rfl, ?_⟩
  rw [weAreTransmitting, hcfg]
  exact Bool.or_eq_true_iff.mpr (.inl (decide_eq_true hsrc))

/-- A node in the first slot of the cycle, and one in the second slot that is started later. -/
theorem transmissions_apart_sample :
    ∃ nodeA nodeB, startup { twoAddresses with modemId := 1 } 1000000 1000000 {} = .ok nodeA ∧
      startup { twoAddresses with modemId := 2 } 12000000 12000001 {} = .ok nodeB ∧
      ∃ s s', Emits (fun _ => 0) nodeA (.initiateTransmission s) 10000000 ∧
        Emits (fun _ => 7) nodeB (.initiateTransmission s') 15000000 ∧
        (10000000 + slotMicroseconds s ≤ 15000000 ∨ 15000000 + slotMicroseconds s' ≤ 10000000) := by
  have htotal : (MacConfig.cycle twoAddresses_valid).total = 10000000 := by decide +kernel
  have hmA : Moment twoAddresses_valid 0 1000000 1000000 :=
    ⟨rfl, by decide, by rw [htotal]; decide, by decide⟩
  have hmB : Moment twoAddresses_valid 0 12000000 12000001 :=
    ⟨rfl, by decide, by rw [htotal]; decide, by decide⟩
  have hlA : Punctual fun _ => 0 := fun _ => by simp
  have hlB : Punctual fun _ => 7 := fun _ => by norm_num
  have hstartA : (MacConfig.cycle twoAddresses_valid).start 0 2 = 10000000 := by decide +kernel
  have hstartB : (MacConfig.cycle twoAddresses_valid).start 0 3 = 15000000 := by decide +kernel
  have hsrcA : (startedSlot twoAddresses_valid 0 2).src = 1 := by decide +kernel
  have hsrcB : (startedSlot twoAddresses_valid 0 3).src = 2 := by decide +kernel
  obtain ⟨nodeA, hA, hlaunchA, hsA⟩ := twoAddresses_initiates hmA hlA
    (hstartA ▸ by decide +kernel) hsrcA
  obtain ⟨nodeB, hB, hlaunchB, hsB⟩ := twoAddresses_initiates hmB hlB
    (hstartB ▸ by decide +kernel) hsrcB
  rw [hstartA] at hsA
  rw [hstartB] at hsB
  exact ⟨nodeA, nodeB, hA, hB, _, _, hsA, hsB,
    transmissions_apart (by decide) twoAddresses_valid rfl (by decide) hlaunchA hlaunchB hmA hmB
      (fun _ => ⟨0, by rw [mul_zero]; decide⟩) hlA hlB hsA hsB⟩

end Goby.MacManager
