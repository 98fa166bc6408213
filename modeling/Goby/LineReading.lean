import Goby.TransmissionMessages
import Mathlib.Data.List.Infix

/-! Bytes arrive in chunks and are kept in a buffer. Once the buffer holds the delimiter, a line is
taken from it up to the last character of the delimiter, which is dropped. For a delimiter of
one character, the lines do not depend on how the bytes were divided into chunks. -/

namespace Goby

/-- A connection is not made with an empty delimiter. -/
structure LineDelimiter where
  bytes : Bytes
  nonempty : bytes ≠ []

def LineDelimiter.last (d : LineDelimiter) : UInt8 := d.bytes.getLast d.nonempty

theorem LineDelimiter.last_mem (d : LineDelimiter) : d.last ∈ d.bytes := List.getLast_mem d.nonempty

/-- The buffer of a connection and the lines it has delivered, the oldest first. -/
structure LineReader where
  buffer : Bytes := []
  lines : List Bytes := []

/-- `std::getline`: the delimiter is taken from the stream, but not put into the line. -/
def getline (last : UInt8) (buffer : Bytes) : Bytes × Bytes :=
  (buffer.takeWhile (· ≠ last), (buffer.dropWhile (· ≠ last)).tail)

namespace LineReader

def readComplete (d : LineDelimiter) (r : LineReader) : LineReader :=
  let (line, rest) := getline d.last r.buffer
  { buffer := rest
    lines := r.lines ++ [line] }

def readLoop (d : LineDelimiter) : ℕ → LineReader → LineReader
  | 0, r => r
  | fuel + 1, r => if d.bytes <:+: r.buffer then readLoop d fuel (r.readComplete d) else r

/-- A chunk arrives. Every line takes at least a byte from the buffer. -/
def receive (d : LineDelimiter) (r : LineReader) (chunk : Bytes) : LineReader :=
  readLoop d (r.buffer ++ chunk).length { r with buffer := r.buffer ++ chunk }

def receiveAll (d : LineDelimiter) (r : LineReader) (chunks : List Bytes) : LineReader :=
  chunks.foldl (receive d) r

variable {d : LineDelimiter} {c : UInt8} {received : Bytes} {r : LineReader}

def terminated (c : UInt8) (lines : List Bytes) : Bytes := (lines.map (· ++ [c])).flatten

@[simp] theorem terminated_nil (c : UInt8) : terminated c [] = [] := rfl

@[simp] theorem terminated_cons (c : UInt8) (line : Bytes) (lines : List Bytes) :
    terminated c (line :: lines) = line ++ c :: terminated c lines := by simp [terminated]

theorem terminated_append (c : UInt8) (lines lines' : List Bytes) :
    terminated c (lines ++ lines') = terminated c lines ++ terminated c lines' := by
  simp [terminated]

/-- The lines delivered and the rest in the buffer are what was received. -/
structure Reads (c : UInt8) (received : Bytes) (r : LineReader) : Prop where
  text : terminated c r.lines ++ r.buffer = received
  clean : ∀ line ∈ r.lines, c ∉ line

theorem getline_spec {buffer : Bytes} (h : c ∈ buffer) :
    c ∉ (getline c buffer).1 ∧ (getline c buffer).1 ++ c :: (getline c buffer).2 = buffer := by
  induction buffer with
  | nil => simp at h
  | cons b buffer ih =>
    by_cases hb : b = c
    · simp [getline, hb]
    · have hmem : c ∈ buffer := by
        rcases List.mem_cons.mp h with heq | hmem
        · exact absurd heq.symm hb
        · exact hmem
      obtain ⟨hclean, htext⟩ := ih hmem
      simp only [getline] at hclean htext
      simp only [getline, ne_eq, hb, not_false_eq_true, decide_true, List.takeWhile_cons_of_pos,
        List.dropWhile_cons_of_pos, List.mem_cons, not_or, List.cons_append, htext, and_true]
      exact ⟨fun heq => hb heq.symm, hclean⟩

theorem getline_append {line : Bytes} (h : c ∉ line) (rest : Bytes) :
    getline c (line ++ c :: rest) = (line, rest) := by
  have hall : ∀ b ∈ line, decide (b ≠ c) = true := by
    intro b hb
    simpa using fun heq : b = c => h (heq ▸ hb)
  rw [getline, List.takeWhile_append_of_pos hall, List.dropWhile_append_of_pos hall]
  simp

theorem last_mem_of_contains {buffer : Bytes} (h : d.bytes <:+: buffer) : d.last ∈ buffer :=
  h.subset d.last_mem

theorem Reads.readComplete (h : Reads d.last received r) (hlast : d.last ∈ r.buffer) :
    Reads d.last received (r.readComplete d) ∧ (r.readComplete d).buffer.length < r.buffer.length := by
  obtain ⟨hclean, htext⟩ := getline_spec hlast
  have hbuffer : (r.readComplete d).buffer = (getline d.last r.buffer).2 := rfl
  have hlines : (r.readComplete d).lines = r.lines ++ [(getline d.last r.buffer).1] := rfl
  refine ⟨⟨?_, ?_⟩, ?_⟩
  · rw [hbuffer, hlines, terminated_append, List.append_assoc]
    simp only [terminated_cons, terminated_nil, List.append_assoc, List.cons_append, List.nil_append]
    rw [htext]
    exact h.text
  · rw [hlines]
    exact List.forall_mem_append.mpr ⟨h.clean, List.forall_mem_singleton.mpr hclean⟩
  · have hlen := congrArg List.length htext
    rw [hbuffer]
    simp only [List.length_append, List.length_cons] at hlen
    omega

theorem Reads.readLoop (h : Reads d.last received r) {fuel : ℕ} (hfuel : r.buffer.length ≤ fuel) :
    Reads d.last received (readLoop d fuel r) ∧ ¬ d.bytes <:+: (LineReader.readLoop d fuel r).buffer := by
  induction fuel generalizing r with
  | zero =>
    have hnil := List.eq_nil_of_length_eq_zero (Nat.le_zero.mp hfuel)
    exact ⟨h, fun hin => List.not_mem_nil (hnil ▸ last_mem_of_contains hin)⟩
  | succ fuel ih =>
    rw [LineReader.readLoop]
    split
    next hin =>
      obtain ⟨hreads, hlen⟩ := h.readComplete (last_mem_of_contains hin)
      exact ih hreads (by omega)
    next hout => exact ⟨h, hout⟩

theorem Reads.receive (h : Reads d.last received r) (chunk : Bytes) :
    Reads d.last (received ++ chunk) (r.receive d chunk) ∧ ¬ d.bytes <:+: (r.receive d chunk).buffer := by
  have hreads : Reads d.last (received ++ chunk) { r with buffer := r.buffer ++ chunk } := by
    refine ⟨?_, h.clean⟩
    rw [← h.text, List.append_assoc]
  exact hreads.readLoop (Nat.le_refl _)

theorem Reads.receiveAll (h : Reads d.last received r)
    (hr : ¬ d.bytes <:+: r.buffer) (chunks : List Bytes) :
    Reads d.last (received ++ chunks.flatten) (r.receiveAll d chunks) ∧
      ¬ d.bytes <:+: (r.receiveAll d chunks).buffer := by
  induction chunks generalizing received r with
  | nil => simpa [LineReader.receiveAll] using And.intro h hr
  | cons chunk chunks ih =>
    obtain ⟨hreads, hout⟩ := h.receive chunk
    rw [List.flatten_cons, ← List.append_assoc]
    exact ih hreads hout

theorem receiveAll_reads (d : LineDelimiter) (chunks : List Bytes) :
    Reads d.last chunks.flatten (receiveAll d {} chunks) ∧
      ¬ d.bytes <:+: (receiveAll d {} chunks).buffer := by
  have hnew : Reads d.last [] {} := ⟨rfl, fun line hline => by cases hline⟩
  exact hnew.receiveAll (fun hin => List.not_mem_nil (last_mem_of_contains hin)) chunks

theorem terminated_inj {lines lines' : List Bytes} {rest rest' : Bytes}
    (h : terminated c lines ++ rest = terminated c lines' ++ rest')
    (hl : ∀ line ∈ lines, c ∉ line) (hr : c ∉ rest) (hl' : ∀ line ∈ lines', c ∉ line)
    (hr' : c ∉ rest') : lines = lines' ∧ rest = rest' := by
  induction lines generalizing lines' with
  | nil =>
    cases lines' with
    | nil => exact ⟨rfl, h⟩
    | cons line' lines' =>
      refine absurd ?_ hr
      rw [show rest = terminated c (line' :: lines') ++ rest' from h]
      simp
  | cons line lines ih =>
    cases lines' with
    | nil =>
      refine absurd ?_ hr'
      rw [← show terminated c (line :: lines) ++ rest = rest' from h]
      simp
    | cons line' lines' =>
      simp only [terminated_cons, List.append_assoc, List.cons_append] at h
      have hfirst := hl line List.mem_cons_self
      have hfirst' := hl' line' List.mem_cons_self
      have hsplit := congrArg (getline c) h
      rw [getline_append hfirst, getline_append hfirst', Prod.mk.injEq] at hsplit
      obtain ⟨hlines, hrest⟩ := ih hsplit.2 (fun l hm => hl l (List.mem_cons_of_mem _ hm))
        (fun l hm => hl' l (List.mem_cons_of_mem _ hm))
      exact ⟨by rw [hsplit.1, hlines], hrest⟩

theorem infix_iff_mem (hd : d.bytes = [c]) (buffer : Bytes) : d.bytes <:+: buffer ↔ c ∈ buffer := by
  rw [hd]
  constructor
  · rintro ⟨s, t, rfl⟩
    simp
  · intro h
    obtain ⟨s, t, rfl⟩ := List.append_of_mem h
    exact ⟨s, t, by simp⟩

theorem last_eq (hd : d.bytes = [c]) : d.last = c := by
  simp [LineDelimiter.last, hd]

/-- The lines delivered are those of the whole text, in whatever chunks it arrives. -/
theorem receiveAll_lines (hd : d.bytes = [c]) {lines : List Bytes} (hl : ∀ line ∈ lines, c ∉ line)
    {chunks : List Bytes} (hchunks : chunks.flatten = terminated c lines) :
    (receiveAll d {} chunks).lines = lines := by
  obtain ⟨hreads, hout⟩ := receiveAll_reads d chunks
  rw [infix_iff_mem hd] at hout
  rw [last_eq hd] at hreads
  have htext : terminated c (receiveAll d {} chunks).lines ++ (receiveAll d {} chunks).buffer =
      terminated c lines ++ [] := by
    rw [hreads.text, hchunks, List.append_nil]
  exact (terminated_inj htext hreads.clean hout hl (by simp)).1

end LineReader
end Goby
