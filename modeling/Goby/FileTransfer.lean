import Goby.NumberedFragments
import Goby.TransmissionMessages
import Mathlib.Data.Rat.Floor
import Mathlib.Logic.Function.Basic
import Mathlib.Tactic.FieldSimp
import Mathlib.Tactic.Linarith

/-! `sendFile` cuts a file into fragments small enough for one acoustic message and
publishes them; `handleReceiveFragment` collects the fragments of each source and
writes the file out when it judges that it has them all. The judgement uses only the
fragment of the highest number and the count of what has been stored, in whatever
order and however often the fragments arrive. -/

namespace Goby.FileTransfer

inductive PushPull
  | push
  | pull
deriving DecidableEq, Repr

structure TransferRequest where
  src : ℤ := 0
  dest : ℤ := 0
  pushOrPull : PushPull := .push
  file : String := ""
deriving DecidableEq, Repr

inductive ErrorCode
  | couldNotReadFile
  | fileTooLarge
  | timeout
  | couldNotWriteFile
  | errorWhileReading
  | otherError
deriving DecidableEq, Repr

structure TransferResponse where
  src : ℤ
  dest : ℤ
  transferSuccessful : Bool
  error : Option ErrorCode := none
  numFragments : Option ℕ := none
deriving DecidableEq, Repr

structure FileFragment where
  src : ℤ := 0
  dest : ℤ := 0
  fragment : ℕ := 0
  isLastFragment : Bool := false
  numBytes : ℕ := 0
  data : Bytes := []
deriving DecidableEq, Repr

structure FileTransferConfig where
  daemon : Bool := false
  localId : ℤ
  remoteId : ℤ
deriving DecidableEq, Repr

def maxFileTransferBytes : ℕ := 1024 * 1024

/-- `max_length` of the field `data`. -/
def fragmentSize : ℕ := 58

/-- An `ifstream`: what has not been read yet, and whether a read ran into the end. -/
structure FileStream where
  rest : Bytes
  eof : Bool
deriving DecidableEq, Repr

def FileStream.good (f : FileStream) : Bool := !f.eof

/-- A read of `n` bytes; the end is noticed only when fewer than `n` are left. -/
def FileStream.read (f : FileStream) (n : ℕ) : Bytes × FileStream :=
  (f.rest.take n, ⟨f.rest.drop n, f.rest.length < n⟩)

inductive SendFailure
  | error (code : ErrorCode)
  /-- A fragment was stored through the iterator `fragments.end()`. -/
  | pastTheEnd
deriving DecidableEq, Repr

/-- The loop that fills the fragments of the vector one after the other. Its
condition looks at the stream only, so it goes on when the slots are used up. -/
def readFragments (size : ℕ) :
    List FileFragment → FileStream → ℕ → ℕ → Except SendFailure (List FileFragment × FileStream × ℕ)
  | [], sendFile, _, fragmentIdx =>
    if sendFile.good then .error .pastTheEnd else .ok ([], sendFile, fragmentIdx)
  | fragment :: slots, sendFile, sizeAcquired, fragmentIdx =>
    if sendFile.good then
      let (buffer, rest) := sendFile.read fragmentSize
      let acquired := sizeAcquired + buffer.length
      match readFragments size slots rest acquired (fragmentIdx + 1) with
      | .error e => .error e
      | .ok (fragments, stream, idx) =>
        .ok ({ fragment with
                fragment := fragmentIdx
                isLastFragment := acquired = size
                numBytes := buffer.length
                data := buffer } :: fragments, stream, idx)
    else .ok (fragment :: slots, sendFile, fragmentIdx)

/-- The fragments the vector is made for: `std::ceil((double)size / fragment_size)`. -/
def fragmentCount (size : ℕ) : ℕ := ⌈(size : ℚ) / fragmentSize⌉₊

variable (cfg : FileTransferConfig)

/-- `send_file`: the fragments published and the number returned. The file is `none`
where it cannot be opened. -/
def sendFile (file : Option Bytes) : Except SendFailure (List FileFragment × ℕ) :=
  match file with
  | none => .error (.error .couldNotReadFile)
  | some content =>
    let size := content.length
    if maxFileTransferBytes < size then .error (.error .fileTooLarge)
    else
      let reference : FileFragment := { src := cfg.localId, dest := cfg.remoteId }
      match readFragments size (List.replicate (fragmentCount size) reference) ⟨content, false⟩ 0 0 with
      | .error e => .error e
      | .ok (fragments, stream, fragmentIdx) =>
        if stream.eof then .ok (fragments, fragmentIdx)
        else .error (.error .errorWhileReading)

inductive Effect
  | write (path : String) (bytes : Bytes)
  | publish (response : TransferResponse)
  | publishFragment (fragment : FileFragment)
  | exit (success : Bool)
deriving DecidableEq, Repr

/-- The receiving side; `running` is false once `exit` has been called. -/
structure State where
  receiveFiles : ℤ → FragmentStore FileFragment.fragment := fun _ => .empty
  requests : ℤ → TransferRequest := fun _ => {}
  running : Bool := true

/-- A request of the other side: to make ready for a file, or to send one. Only a
file whose sending stays within the vector of fragments gives a next state. -/
def handleRemoteTransferRequest (files : String → Option Bytes)
    (s : State) (request : TransferRequest) : Except SendFailure (State × List Effect) :=
  let noted := { s with requests := Function.update s.requests request.src request }
  match request.pushOrPull with
  | .push =>
    .ok ({ noted with receiveFiles := Function.update s.receiveFiles request.src .empty }, [])
  | .pull =>
    let response : TransferResponse :=
      { src := request.dest, dest := request.src, transferSuccessful := true }
    match sendFile cfg (files request.file) with
    | .ok (fragments, n) =>
      .ok (noted, fragments.map .publishFragment ++ [.publish { response with numFragments := some n }])
    | .error (.error code) =>
      if cfg.daemon then
        .ok (noted, [.publish { response with transferSuccessful := false, error := some code }])
      else .ok ({ s with running := false }, [.exit false])
    | .error .pastTheEnd => .error .pastTheEnd

/-- Writing the stored fragments to the file asked for, where it can be opened. The
response is published by a daemon only: any other process has exited before. -/
def writeFile (canOpen : String → Bool) (request : TransferRequest)
    (receive : FragmentStore FileFragment.fragment) : List Effect :=
  let response : TransferResponse :=
    { src := request.dest, dest := request.src, transferSuccessful := true }
  if canOpen request.file then
    .write request.file (receive.entries.flatMap fun f => f.data.take f.numBytes) ::
      if cfg.daemon then [.publish response] else [.exit true]
  else if cfg.daemon then
    [.publish { response with transferSuccessful := false, error := some .couldNotWriteFile }]
  else [.exit false]

def handleReceiveFragment (canOpen : String → Bool) (s : State)
    (fragment : FileFragment) : State × List Effect :=
  let receive := (s.receiveFiles fragment.src).insert fragment
  let stored := { s with receiveFiles := Function.update s.receiveFiles fragment.src receive }
  match receive.last? with
  | none => (stored, [])
  | some last =>
    if last.isLastFragment then
      if receive.size = last.fragment + 1 then
        ({ stored with running := cfg.daemon },
          writeFile cfg canOpen (s.requests fragment.src) receive)
      else (stored, [])
    else (stored, [])

def deliver (canOpen : String → Bool) (s : State) (fragment : FileFragment) : State × List Effect :=
  if s.running then handleReceiveFragment cfg canOpen s fragment else (s, [])

def deliverAll (cfg : FileTransferConfig) (canOpen : String → Bool) :
    State → List FileFragment → State × List Effect
  | s, [] => (s, [])
  | s, f :: fs =>
    let (s', effects) := deliver cfg canOpen s f
    let (s'', more) := deliverAll cfg canOpen s' fs
    (s'', effects ++ more)

def written (effects : List Effect) : List (String × Bytes) :=
  effects.filterMap fun
    | .write path bytes => some (path, bytes)
    | _ => none

def fragmentOf (file : Bytes) (i : ℕ) : FileFragment where
  src := cfg.localId
  dest := cfg.remoteId
  fragment := i
  isLastFragment := min ((i + 1) * fragmentSize) file.length = file.length
  numBytes := (piece fragmentSize file i).length
  data := piece fragmentSize file i

def fragmentsOf (file : Bytes) : List FileFragment :=
  (List.range (fragmentCount file.length)).map (fragmentOf cfg file)

def streamAt (file : Bytes) (i : ℕ) : FileStream where
  rest := file.drop (i * fragmentSize)
  eof := file.length < i * fragmentSize

theorem fragmentCount_le_iff (size n : ℕ) : fragmentCount size ≤ n ↔ size ≤ n * fragmentSize := by
  have hpos : (0 : ℚ) < (fragmentSize : ℕ) := by norm_num [fragmentSize]
  rw [fragmentCount, Nat.ceil_le, div_le_iff₀ hpos]
  exact_mod_cast Iff.rfl

theorem le_fragmentCount_mul (size : ℕ) : size ≤ fragmentCount size * fragmentSize :=
  (fragmentCount_le_iff size _).mp le_rfl

theorem mul_lt_of_lt_fragmentCount {size i : ℕ} (h : i < fragmentCount size) :
    i * fragmentSize < size := by
  by_contra hle
  exact absurd ((fragmentCount_le_iff size i).mpr (Nat.not_lt.mp hle)) (Nat.not_le.mpr h)

/-- The vector has room to spare exactly where the last fragment is a short one. -/
theorem lt_fragmentCount_mul_iff (size : ℕ) :
    size < fragmentCount size * fragmentSize ↔ ¬ fragmentSize ∣ size := by
  constructor
  · rintro hlt ⟨k, rfl⟩
    have hk : k < fragmentCount (fragmentSize * k) := by
      rw [Nat.mul_comm fragmentSize k] at hlt ⊢
      exact Nat.lt_of_mul_lt_mul_right hlt
    have hself := mul_lt_of_lt_fragmentCount hk
    rw [Nat.mul_comm] at hself
    exact lt_irrefl _ hself
  · intro hdvd
    apply lt_of_le_of_ne (le_fragmentCount_mul size)
    intro he
    exact hdvd ⟨fragmentCount size, he.trans (Nat.mul_comm _ _)⟩

theorem read_streamAt (file : Bytes) (i : ℕ) :
    (streamAt file i).read fragmentSize = (piece fragmentSize file i, streamAt file (i + 1)) := by
  have heof : (file.length - i * fragmentSize < fragmentSize) ↔
      file.length < (i + 1) * fragmentSize := by
    simp only [fragmentSize]
    omega
  simp [FileStream.read, streamAt, piece, List.drop_drop, Nat.succ_mul, heof]

/-- The loop run on enough of a file for every slot: the slots are filled with the
file's fragments, and all is well only if the last of them ran into the end. -/
theorem readFragments_streamAt (file : Bytes) (slots i : ℕ)
    (hgood : ∀ j < i + slots, j * fragmentSize ≤ file.length) :
    readFragments file.length
        (List.replicate slots { src := cfg.localId, dest := cfg.remoteId }) (streamAt file i)
        (min (i * fragmentSize) file.length) i =
      if file.length < (i + slots) * fragmentSize then
        .ok ((List.range' i slots).map (fragmentOf cfg file), streamAt file (i + slots), i + slots)
      else .error .pastTheEnd := by
  induction slots generalizing i with
  | zero =>
    by_cases hlt : file.length < i * fragmentSize
    · simp [readFragments, streamAt, FileStream.good, hlt]
    · simp [readFragments, streamAt, FileStream.good, hlt, Nat.not_lt.mp hlt]
  | succ slots ih =>
    have hi := hgood i (by omega)
    have hacquired : min (i * fragmentSize) file.length + (piece fragmentSize file i).length =
        min ((i + 1) * fragmentSize) file.length := by
      rw [length_piece, Nat.succ_mul]
      omega
    have hrest := ih (i + 1) (fun j hj => hgood j (by omega))
    have hopen : (streamAt file i).good = true := by
      simpa [streamAt, FileStream.good] using hi
    have hsum : i + 1 + slots = i + (slots + 1) := by omega
    rw [hsum] at hrest
    rw [List.replicate_succ, readFragments, if_pos hopen, read_streamAt]
    simp only [hacquired, hrest]
    split_ifs with hlt
    · rw [List.range'_succ]
      rfl
    · rfl

theorem sendFile_eq (file : Bytes) (hmax : file.length ≤ maxFileTransferBytes) :
    sendFile cfg (some file) =
      if fragmentSize ∣ file.length then .error .pastTheEnd
      else .ok (fragmentsOf cfg file, fragmentCount file.length) := by
  have hloop := readFragments_streamAt cfg file (fragmentCount file.length) 0 (by
    intro j hj
    exact (mul_lt_of_lt_fragmentCount (by omega)).le)
  have hstart : streamAt file 0 = ⟨file, false⟩ := by simp [streamAt]
  simp only [Nat.zero_add, Nat.zero_mul, Nat.zero_min, hstart, lt_fragmentCount_mul_iff] at hloop
  rw [sendFile]
  simp only [Nat.not_lt.mpr hmax, if_false, hloop]
  by_cases hdvd : fragmentSize ∣ file.length
  · simp [hdvd]
  · have heof : (streamAt file (fragmentCount file.length)).eof = true := by
      simpa [streamAt] using (lt_fragmentCount_mul_iff file.length).mpr hdvd
    simp [hdvd, heof, fragmentsOf, List.range_eq_range']

theorem sendFile_eq_ok_iff (file : Bytes) (r : List FileFragment × ℕ) :
    sendFile cfg (some file) = .ok r ↔
      file.length ≤ maxFileTransferBytes ∧ ¬ fragmentSize ∣ file.length ∧
      r = (fragmentsOf cfg file, fragmentCount file.length) := by
  by_cases hmax : file.length ≤ maxFileTransferBytes
  · rw [sendFile_eq cfg file hmax]
    by_cases hdvd : fragmentSize ∣ file.length
    · simp [hdvd]
    · simp [hdvd, hmax, eq_comm]
  · simp [sendFile, Nat.not_le.mp hmax, hmax]

theorem exists_sendFile_iff (file : Bytes) :
    (∃ r, sendFile cfg (some file) = .ok r) ↔
      file.length ≤ maxFileTransferBytes ∧ ¬ fragmentSize ∣ file.length := by
  simp only [sendFile_eq_ok_iff]
  constructor
  · rintro ⟨r, hmax, hdvd, -⟩
    exact ⟨hmax, hdvd⟩
  · rintro ⟨hmax, hdvd⟩
    exact ⟨_, hmax, hdvd, rfl⟩

theorem fragmentOf_isLastFragment_iff {file : Bytes} {i : ℕ} (hi : i < fragmentCount file.length) :
    (fragmentOf cfg file i).isLastFragment = true ↔ i + 1 = fragmentCount file.length := by
  refine decide_eq_true_iff.trans ⟨fun hlast => ?_, fun he => ?_⟩
  · have hle : fragmentCount file.length ≤ i + 1 :=
      (fragmentCount_le_iff _ _).mpr (min_eq_right_iff.mp hlast)
    omega
  · rw [he]
    exact min_eq_right (le_fragmentCount_mul _)

section Collecting

variable (receiver : FileTransferConfig) {sender : FileTransferConfig} {canOpen : String → Bool}
  {file : Bytes} {receive : FragmentStore FileFragment.fragment} {seen : List FileFragment}
  {f : FileFragment}

structure Collected (sender : FileTransferConfig) (file : Bytes)
    (receive : FragmentStore FileFragment.fragment) (seen : List FileFragment) : Prop where
  holds : receive.Holds (fragmentOf sender file) (fragmentCount file.length)
  mem_iff : ∀ f, f ∈ receive.entries ↔ f ∈ seen

theorem collected_empty : Collected sender file .empty [] :=
  ⟨FragmentStore.holds_empty, fun _ => Iff.rfl⟩

theorem Collected.insert (h : Collected sender file receive seen) (hf : f ∈ fragmentsOf sender file) :
    Collected sender file (receive.insert f) (seen ++ [f]) := by
  obtain ⟨i, hi, rfl⟩ := List.mem_map.mp hf
  refine ⟨h.holds.insert (List.mem_range.mp hi) rfl, fun f => ?_⟩
  rw [FragmentStore.mem_insert_iff h.holds rfl, h.mem_iff, List.mem_append, List.mem_singleton]
  exact or_comm

theorem Collected.size_eq_iff (h : Collected sender file receive seen) :
    receive.size = fragmentCount file.length ↔ fragmentsOf sender file ⊆ seen := by
  constructor
  · intro hsize f hf
    rw [← h.mem_iff, h.holds.entries_eq hsize]
    exact hf
  · intro hall
    apply h.holds.size_eq
    · intro i hi
      exact (h.mem_iff _).mpr (hall (List.mem_map_of_mem (List.mem_range.mpr hi)))
    · intro i _
      rfl

theorem Collected.complete_iff (h : Collected sender file receive seen) {last : FileFragment}
    (hlast : receive.last? = some last) :
    (last.isLastFragment = true ∧ receive.size = last.fragment + 1) ↔
      receive.size = fragmentCount file.length := by
  have hmem : last ∈ receive.entries := List.mem_of_getLast? hlast
  obtain ⟨hlt, heq⟩ := h.holds last hmem
  have hflag : last.isLastFragment = true ↔ last.fragment + 1 = fragmentCount file.length := by
    rw [heq]
    exact fragmentOf_isLastFragment_iff sender hlt
  rw [hflag]
  constructor
  · rintro ⟨hn, hsize⟩
    exact hsize.trans hn
  · intro hsize
    -- the highest number in a full store is the last one of the file
    have hrange := h.holds.entries_eq hsize
    obtain ⟨m, hm⟩ : ∃ m, fragmentCount file.length = m + 1 := ⟨fragmentCount file.length - 1, by omega⟩
    rw [hm, List.range_succ, List.map_append, List.map_singleton] at hrange
    have hlast' := FragmentStore.last?_append_singleton hrange
    have hnum : last.fragment = m := by rw [Option.some.inj (hlast.symm.trans hlast')]; rfl
    omega

theorem Collected.bytes_eq (h : Collected sender file receive seen)
    (hsize : receive.size = fragmentCount file.length) :
    receive.entries.flatMap (fun f => f.data.take f.numBytes) = file := by
  rw [h.holds.entries_eq hsize, List.flatMap_map]
  have hdata : ∀ i, (fragmentOf sender file i).data.take (fragmentOf sender file i).numBytes =
      piece fragmentSize file i := fun i => List.take_length
  simp only [hdata]
  exact flatMap_piece_eq (le_fragmentCount_mul file.length)

theorem written_append (a b : List Effect) : written (a ++ b) = written a ++ written b :=
  List.filterMap_append

theorem written_writeFile (request : TransferRequest) (hopen : canOpen request.file = true) :
    written (writeFile receiver canOpen request receive) =
      [(request.file, receive.entries.flatMap fun f => f.data.take f.numBytes)] := by
  cases hd : receiver.daemon <;> simp [writeFile, written, hopen, hd]

/-- The state of the receiver after the fragments `seen` of one file. A process that
is gone has written the file, so it has seen all of them. -/
structure Receiving (sender : FileTransferConfig) (file : Bytes) (path : String)
    (s : State) (seen : List FileFragment) : Prop where
  request : (s.requests sender.localId).file = path
  collected : s.running = true → Collected sender file (s.receiveFiles sender.localId) seen
  stopped : s.running = false → fragmentsOf sender file ⊆ seen

variable {path : String} {s : State}

omit receiver in
/-- A fragment of the file is stored; the driver goes on running unless it was the last one. -/
theorem Receiving.store (h : Receiving sender file path s seen) (hrun : s.running = true)
    (hf : f ∈ fragmentsOf sender file) (running : Bool)
    (hstop : running = false → fragmentsOf sender file ⊆ seen ++ [f]) :
    Receiving sender file path
      { s with
        running := running
        receiveFiles :=
          Function.update s.receiveFiles sender.localId ((s.receiveFiles sender.localId).insert f) }
      (seen ++ [f]) := by
  refine ⟨h.request, fun _ => ?_, hstop⟩
  simpa using (h.collected hrun).insert hf

/-- One fragment of the file: it is written if this was the last one missing, or if
none was missing any more; else nothing happens. -/
theorem Receiving.deliver (h : Receiving sender file path s seen) (hopen : canOpen path = true)
    (hf : f ∈ fragmentsOf sender file) :
    Receiving sender file path (FileTransfer.deliver receiver canOpen s f).1 (seen ++ [f]) ∧
      written (FileTransfer.deliver receiver canOpen s f).2 =
        if s.running = true ∧ fragmentsOf sender file ⊆ seen ++ [f] then [(path, file)] else [] := by
  cases hrun : s.running with
  | false =>
    simp only [FileTransfer.deliver, hrun, Bool.false_eq_true, if_false, false_and]
    refine ⟨⟨h.request, fun hr => ?_, fun _ => ?_⟩, rfl⟩
    · exact absurd (hrun.symm.trans hr) (by decide)
    · exact fun g hg => List.mem_append_left _ (h.stopped hrun hg)
  | true =>
    have hc := (h.collected hrun).insert hf
    obtain ⟨last, hlast⟩ : ∃ last, ((s.receiveFiles sender.localId).insert f).last? = some last :=
      ⟨_, List.getLast?_eq_getLast_of_ne_nil (FragmentStore.insert_entries_ne_nil _ _)⟩
    have hcomplete := (hc.complete_iff hlast).trans hc.size_eq_iff
    have hsrc : f.src = sender.localId := by
      obtain ⟨i, -, rfl⟩ := List.mem_map.mp hf
      rfl
    simp only [FileTransfer.deliver, hrun, if_true, handleReceiveFragment, hsrc, hlast, true_and]
    by_cases hall : fragmentsOf sender file ⊆ seen ++ [f]
    · obtain ⟨hflag, hsize⟩ := hcomplete.mpr hall
      rw [if_pos hflag, if_pos hsize, if_pos hall]
      refine ⟨h.store hrun hf _ fun _ => hall, ?_⟩
      have hopen' : canOpen (s.requests sender.localId).file = true := by rwa [h.request]
      rw [written_writeFile receiver _ hopen', h.request, hc.bytes_eq (hc.size_eq_iff.mpr hall)]
    · have hnext := h.store hrun hf true nofun
      rw [if_neg hall]
      split_ifs with hflag hsize
      · exact absurd (hcomplete.mp ⟨hflag, hsize⟩) hall
      · exact ⟨hnext, rfl⟩
      · exact ⟨hnext, rfl⟩

theorem deliverAll_append (canOpen : String → Bool) (s : State)
    (fs gs : List FileFragment) :
    deliverAll receiver canOpen s (fs ++ gs) =
      ((deliverAll receiver canOpen (deliverAll receiver canOpen s fs).1 gs).1,
        (deliverAll receiver canOpen s fs).2 ++
          (deliverAll receiver canOpen (deliverAll receiver canOpen s fs).1 gs).2) := by
  induction fs generalizing s with
  | nil => rfl
  | cons f fs ih => simp only [List.cons_append, deliverAll, ih, List.append_assoc]

theorem deliverAll_singleton (canOpen : String → Bool) (s : State) (f : FileFragment) :
    deliverAll receiver canOpen s [f] = deliver receiver canOpen s f := by
  simp [deliverAll]

/-- Any arrivals of fragments of the file: nothing but the file is ever written, and
nothing at all as long as one fragment is missing. -/
theorem Receiving.deliverAll (h : Receiving sender file path s []) (hopen : canOpen path = true)
    (arrivals : List FileFragment) (hfrom : arrivals ⊆ fragmentsOf sender file) :
    Receiving sender file path (FileTransfer.deliverAll receiver canOpen s arrivals).1 arrivals ∧
      (¬ fragmentsOf sender file ⊆ arrivals →
        written (FileTransfer.deliverAll receiver canOpen s arrivals).2 = []) ∧
      ∀ w ∈ written (FileTransfer.deliverAll receiver canOpen s arrivals).2, w = (path, file) := by
  induction arrivals using List.reverseRecOn with
  | nil => exact ⟨h, fun _ => rfl, nofun⟩
  | append_singleton before f ih =>
    obtain ⟨hr, hquiet, hwrites⟩ := ih fun g hg => hfrom (List.mem_append_left _ hg)
    obtain ⟨hr', hwritten⟩ := hr.deliver receiver hopen (hfrom List.mem_concat_self)
    rw [deliverAll_append, deliverAll_singleton, written_append, hwritten]
    refine ⟨hr', fun hmissing => ?_, fun w hw => ?_⟩
    · have hbefore : ¬ fragmentsOf sender file ⊆ before :=
        fun hall => hmissing fun g hg => List.mem_append_left _ (hall hg)
      rw [hquiet hbefore, if_neg fun hall => hmissing hall.2, List.nil_append]
    · rcases List.mem_append.mp hw with hw | hw
      · exact hwrites w hw
      · split_ifs at hw
        · exact List.mem_singleton.mp hw
        · simp at hw

/-- The arrival that completes the file writes it. -/
theorem Receiving.deliverAll_completed (h : Receiving sender file path s []) (hopen : canOpen path = true)
    (before : List FileFragment) (hfrom : before ++ [f] ⊆ fragmentsOf sender file)
    (hmissing : ¬ fragmentsOf sender file ⊆ before) (hall : fragmentsOf sender file ⊆ before ++ [f]) :
    written (FileTransfer.deliverAll receiver canOpen s (before ++ [f])).2 = [(path, file)] := by
  obtain ⟨hr, hquiet, -⟩ := h.deliverAll receiver hopen before
    fun g hg => hfrom (List.mem_append_left _ hg)
  have hb : (FileTransfer.deliverAll receiver canOpen s before).1.running = true := by
    by_contra hstop
    exact hmissing (hr.stopped (Bool.eq_false_iff.mpr hstop))
  rw [deliverAll_append, deliverAll_singleton, written_append, hquiet hmissing, List.nil_append,
    (hr.deliver receiver hopen (hfrom (by simp))).2, if_pos ⟨hb, hall⟩]

omit receiver in
theorem receiving_start (hrun : s.running = true) (hempty : s.receiveFiles sender.localId = .empty) :
    Receiving sender file (s.requests sender.localId).file s [] := by
  refine ⟨rfl, fun _ => ?_, fun hs => absurd (hrun.symm.trans hs) (by decide)⟩
  rw [hempty]
  exact collected_empty

end Collecting

/-- A request to push makes ready for the file, whatever was stored before. -/
theorem ready_of_push {receiver : FileTransferConfig} {files : String → Option Bytes}
    {request : TransferRequest} {s s' : State} {effects : List Effect} (hpush : request.pushOrPull = .push)
    (h : handleRemoteTransferRequest receiver files s request = .ok (s', effects)) :
    s'.running = s.running ∧ s'.receiveFiles request.src = .empty ∧ s'.requests request.src = request := by
  simp only [handleRemoteTransferRequest, hpush, Except.ok.injEq, Prod.mk.injEq] at h
  obtain ⟨rfl, -⟩ := h
  simp

/-- Every file that is split is reassembled, whatever the order and number of the
arrivals: it is written by the arrival that leaves none of its fragments missing, by
none before, and never with other bytes. The files that are split are those within
the limit that do not end with a whole fragment; a request to push makes ready for them. -/
theorem handleReceiveFragment_reassembles (sender : FileTransferConfig) (file : Bytes) :
    ((∃ r, sendFile sender (some file) = .ok r) ↔
      file.length ≤ maxFileTransferBytes ∧ ¬ fragmentSize ∣ file.length) ∧
    (∀ receiver files s (request : TransferRequest) s' effects, request.pushOrPull = .push →
      handleRemoteTransferRequest receiver files s request = .ok (s', effects) →
      s'.running = s.running ∧ s'.receiveFiles request.src = .empty ∧ s'.requests request.src = request) ∧
    ∀ fragments n, sendFile sender (some file) = .ok (fragments, n) →
      ∀ (receiver : FileTransferConfig) (canOpen : String → Bool) (s : State),
        s.running = true → s.receiveFiles sender.localId = .empty →
        canOpen (s.requests sender.localId).file = true →
        ∀ arrivals : List FileFragment, arrivals ⊆ fragments →
          (¬ fragments ⊆ arrivals → written (deliverAll receiver canOpen s arrivals).2 = []) ∧
          (∀ before f, arrivals = before ++ [f] → ¬ fragments ⊆ before → fragments ⊆ arrivals →
            written (deliverAll receiver canOpen s arrivals).2 =
              [((s.requests sender.localId).file, file)]) ∧
          ∀ w ∈ written (deliverAll receiver canOpen s arrivals).2,
            w = ((s.requests sender.localId).file, file) := by
  refine ⟨exists_sendFile_iff sender file, fun _ _ _ _ _ _ => ready_of_push, ?_⟩
  intro fragments n hsend receiver canOpen s hrun hempty hopen arrivals hsub
  obtain ⟨-, -, hr⟩ := (sendFile_eq_ok_iff _ _ _).mp hsend
  obtain ⟨rfl, rfl⟩ := Prod.mk.inj hr
  have hstart : Receiving sender file (s.requests sender.localId).file s [] :=
    receiving_start hrun hempty
  obtain ⟨-, hquiet, hwrites⟩ := hstart.deliverAll receiver hopen arrivals hsub
  refine ⟨hquiet, ?_, hwrites⟩
  rintro before f rfl hmissing hall
  exact hstart.deliverAll_completed receiver hopen before hsub hmissing hall

def sampleSender : FileTransferConfig := { localId := 1, remoteId := 2 }

def sampleReceiver : FileTransferConfig := { daemon := true, localId := 2, remoteId := 1 }

def sampleFile : Bytes := (List.range 60).map UInt8.ofNat

def sampleState : State :=
  { requests := fun _ => { src := 1, dest := 2, file := "survey.log" } }

/-- Two fragments, the second twice and before the first. -/
theorem handleReceiveFragment_reassembles_sample :
    sendFile sampleSender (some sampleFile) =
        .ok ([fragmentOf sampleSender sampleFile 0, fragmentOf sampleSender sampleFile 1], 2) ∧
      written (deliverAll sampleReceiver (fun _ => true) sampleState
        [fragmentOf sampleSender sampleFile 1, fragmentOf sampleSender sampleFile 1,
          fragmentOf sampleSender sampleFile 0]).2 = [("survey.log", sampleFile)] := by
  have hsend : sendFile sampleSender (some sampleFile) =
      .ok ([fragmentOf sampleSender sampleFile 0, fragmentOf sampleSender sampleFile 1], 2) := by
    decide +kernel
  have hrun := (handleReceiveFragment_reassembles sampleSender sampleFile).2.2 _ _ hsend sampleReceiver
    (fun _ => true) sampleState rfl rfl rfl
    [fragmentOf sampleSender sampleFile 1, fragmentOf sampleSender sampleFile 1,
      fragmentOf sampleSender sampleFile 0] (by simp)
  refine ⟨hsend, hrun.2.1 [fragmentOf sampleSender sampleFile 1, fragmentOf sampleSender sampleFile 1]
    (fragmentOf sampleSender sampleFile 0) rfl ?_ (by simp)⟩
  intro hsub
  have hmem := hsub (List.mem_cons_self (a := fragmentOf sampleSender sampleFile 0))
  simp [fragmentOf] at hmem

/-- The fragments published for a file and the number returned are what they should be. -/
structure Fragmented (file : Bytes) (fragments : List FileFragment) (returned : ℕ) : Prop where
  returned_eq : returned = fragments.length
  length_eq : fragments.length = ⌈(file.length : ℚ) / fragmentSize⌉₊
  numbered : fragments.map FileFragment.fragment = List.range fragments.length
  last_iff : ∀ f ∈ fragments, f.isLastFragment = true ↔ f.fragment + 1 = fragments.length
  numBytes_eq : ∀ f ∈ fragments, f.numBytes = f.data.length
  numBytes_pos : ∀ f ∈ fragments, 1 ≤ f.numBytes
  data_eq : fragments.flatMap FileFragment.data = file

theorem fragmented_fragmentOf (file : Bytes) :
    Fragmented file (fragmentsOf cfg file) (fragmentCount file.length) where
  returned_eq := by simp [fragmentsOf]
  length_eq := by rw [fragmentsOf, List.length_map, List.length_range, fragmentCount]
  numbered := by
    rw [fragmentsOf, List.map_map, List.length_map, List.length_range]
    exact List.map_id _
  last_iff := by
    intro f hf
    obtain ⟨i, hi, rfl⟩ := List.mem_map.mp hf
    rw [fragmentsOf, List.length_map, List.length_range]
    exact fragmentOf_isLastFragment_iff cfg (List.mem_range.mp hi)
  numBytes_eq := by
    intro f hf
    obtain ⟨i, -, rfl⟩ := List.mem_map.mp hf
    rfl
  numBytes_pos := by
    intro f hf
    obtain ⟨i, hi, rfl⟩ := List.mem_map.mp hf
    have hstart := mul_lt_of_lt_fragmentCount (List.mem_range.mp hi)
    simp only [fragmentOf, length_piece]
    have : 1 ≤ fragmentSize := by decide
    omega
  data_eq := by
    rw [fragmentsOf, List.flatMap_map]
    exact flatMap_piece_eq (le_fragmentCount_mul file.length)

/-- A file within the limit is fragmented as it should be exactly if it does not end with a
whole fragment; otherwise, and also for an empty file, a fragment is written past the end
of the vector. -/
theorem sendFile_fragmented_iff (cfg : FileTransferConfig) (file : Bytes)
    (hmax : file.length ≤ maxFileTransferBytes) :
    ((∃ fragments n, sendFile cfg (some file) = .ok (fragments, n) ∧ Fragmented file fragments n) ↔
        ¬ fragmentSize ∣ file.length) ∧
      (sendFile cfg (some file) = .error .pastTheEnd ↔ fragmentSize ∣ file.length) := by
  rw [sendFile_eq cfg file hmax]
  by_cases hdvd : fragmentSize ∣ file.length
  · simp [hdvd]
  · rw [if_neg hdvd]
    constructor
    · exact iff_of_true ⟨_, _, rfl, fragmented_fragmentOf cfg file⟩ hdvd
    · exact iff_of_false nofun hdvd

theorem sendFile_fragmented_iff_sample :
    ∃ fragments n, sendFile sampleSender (some sampleFile) = .ok (fragments, n) ∧
      Fragmented sampleFile fragments n :=
  (sendFile_fragmented_iff sampleSender sampleFile (by decide)).1.mpr (by decide)

/-- A file of exactly one fragment: the read that takes its last byte does not see the
end, so the loop goes round once more with no slot left. -/
theorem sendFile_whole_fragment :
    (List.replicate 58 (0 : UInt8)).length ≤ maxFileTransferBytes ∧
      sendFile sampleSender (some (List.replicate 58 0)) = .error .pastTheEnd := by
  refine ⟨by decide, ?_⟩
  rw [sendFile_eq _ _ (by decide)]
  rfl

end Goby.FileTransfer
