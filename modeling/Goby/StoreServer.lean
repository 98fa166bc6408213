import Goby.TransmissionMessages
import Mathlib.Data.List.Nodup
import Mathlib.Logic.Function.Basic
import Mathlib.Order.Monotone.Basic

/-! Modems that cannot hear each other leave their transmissions with a server and fetch
those of the others. The server keeps one table for all of them and, for each modem,
the time of its last request: a response has what was stored since then. A request's
own rows are stored after its time has been taken, so they wait for the next request. -/

namespace Goby.StoreServer

/-- A row of the table; the blob stands for the message it parses to. -/
structure Row where
  id : ℕ
  src : ℤ
  dest : ℤ
  microtime : ℕ
  bytes : ModemTransmission
deriving DecidableEq

/-- The table `ModemTransmission`, with the next id of its autoincremented key. -/
structure Table where
  rows : List Row
  nextId : ℕ
  sorted : rows.Pairwise (fun a b => a.id < b.id)
  fresh : ∀ r ∈ rows, r.id < nextId

namespace Table

def create : Table := ⟨[], 1, .nil, by simp⟩

/-- `INSERT INTO ModemTransmission (src, dest, microtime, bytes)`. -/
def insert (t : Table) (m : ModemTransmission) (microtime : ℕ) : Table where
  rows := t.rows ++ [⟨t.nextId, m.src, m.destD, microtime, m⟩]
  nextId := t.nextId + 1
  sorted := by
    rw [List.pairwise_append]
    refine ⟨t.sorted, List.pairwise_singleton .., ?_⟩
    intro a ha b hb
    rw [List.mem_singleton.mp hb]
    exact t.fresh a ha
  fresh := by
    intro r hr
    rcases List.mem_append.mp hr with hr | hr
    · exact Nat.lt_succ_of_lt (t.fresh r hr)
    · rw [List.mem_singleton.mp hr]
      exact Nat.lt_succ_self _

/-- `SELECT ... WHERE src != ?1 AND (microtime > ?2 AND microtime <= ?3)`. -/
def select (t : Table) (src : ℤ) (after upTo : ℕ) : List Row :=
  t.rows.filter fun r => r.src ≠ src ∧ after < r.microtime ∧ r.microtime ≤ upTo

theorem nodup_rows (t : Table) : t.rows.Nodup :=
  t.sorted.imp fun h he => absurd (congrArg Row.id he) (Nat.ne_of_lt h)

end Table

structure StoreServerRequest where
  modemId : ℤ
  outbox : List ModemTransmission := []
  requestId : Option ℕ := none

structure StoreServerResponse where
  modemId : ℤ
  inbox : List ModemTransmission := []
  requestId : Option ℕ := none

/-- The server, with the number of clock readings it has made. -/
structure Server where
  readings : ℕ := 0
  table : Table
  lastRequestTime : ℤ → Option ℕ := fun _ => none

/-- One row for each transmission, each with a clock reading of its own. -/
def insertAll (clock : ℕ → ℕ) : Server → List ModemTransmission → Server
  | s, [] => s
  | s, m :: outbox =>
    insertAll clock
      { s with readings := s.readings + 1, table := s.table.insert m (clock s.readings) } outbox

def lastTime (s : Server) (modemId : ℤ) : ℕ := (s.lastRequestTime modemId).getD 0

def serve (clock : ℕ → ℕ) (s : Server) (request : StoreServerRequest) : Server × List Row :=
  let requestTime := clock s.readings
  let stored := insertAll clock { s with readings := s.readings + 1 } request.outbox
  ({ stored with
      lastRequestTime := Function.update stored.lastRequestTime request.modemId (some requestTime) },
    stored.table.select request.modemId (lastTime stored request.modemId) requestTime)

def handleRequest (clock : ℕ → ℕ) (s : Server) (request : StoreServerRequest) :
    Server × StoreServerResponse :=
  let (next, rows) := serve clock s request
  (next, { modemId := request.modemId, inbox := rows.map Row.bytes })

/-- What one request did: the rows it added to the table and those it was answered with. -/
structure Entry where
  request : StoreServerRequest
  stored : List Row
  returned : List Row
  response : StoreServerResponse

def entry (clock : ℕ → ℕ) (s : Server) (request : StoreServerRequest) : Entry where
  request := request
  stored := (handleRequest clock s request).1.table.rows.drop s.table.rows.length
  returned := (serve clock s request).2
  response := (handleRequest clock s request).2

def log (clock : ℕ → ℕ) : Server → List StoreServerRequest → List Entry
  | _, [] => []
  | s, request :: requests =>
    entry clock s request :: log clock (handleRequest clock s request).1 requests

def newRows (clock : ℕ → ℕ) : ℕ → ℕ → List ModemTransmission → List Row
  | _, _, [] => []
  | id, readings, m :: outbox =>
    ⟨id, m.src, m.destD, clock readings, m⟩ :: newRows clock (id + 1) (readings + 1) outbox

theorem map_bytes_newRows (clock : ℕ → ℕ) (id readings : ℕ) (outbox : List ModemTransmission) :
    (newRows clock id readings outbox).map Row.bytes = outbox := by
  induction outbox generalizing id readings with
  | nil => rfl
  | cons m outbox ih => rw [newRows, List.map_cons, ih]

theorem mem_newRows {clock : ℕ → ℕ} {id readings : ℕ} {outbox : List ModemTransmission} {r : Row}
    (h : r ∈ newRows clock id readings outbox) : r.src = r.bytes.src ∧
      ∃ t, readings ≤ t ∧ t < readings + outbox.length ∧ r.microtime = clock t := by
  induction outbox generalizing id readings with
  | nil => simp [newRows] at h
  | cons m outbox ih =>
    rcases List.mem_cons.mp h with rfl | h
    · exact ⟨rfl, readings, le_rfl, by simp, rfl⟩
    · obtain ⟨hsrc, t, hle, hlt, hr⟩ := ih h
      refine ⟨hsrc, t, by omega, ?_, hr⟩
      rw [List.length_cons]
      omega

section

variable (clock : ℕ → ℕ) (s : Server) (outbox : List ModemTransmission)

theorem rows_insertAll :
    (insertAll clock s outbox).table.rows =
      s.table.rows ++ newRows clock s.table.nextId s.readings outbox := by
  induction outbox generalizing s with
  | nil => simp [insertAll, newRows]
  | cons m outbox ih =>
    rw [insertAll, ih, newRows]
    simp [Table.insert]

theorem readings_insertAll : (insertAll clock s outbox).readings = s.readings + outbox.length := by
  induction outbox generalizing s with
  | nil => rfl
  | cons m outbox ih =>
    simp only [insertAll, ih, List.length_cons]
    omega

@[simp] theorem lastRequestTime_insertAll :
    (insertAll clock s outbox).lastRequestTime = s.lastRequestTime := by
  induction outbox generalizing s with
  | nil => rfl
  | cons m outbox ih => rw [insertAll, ih]

end

section Serving

variable {clock : ℕ → ℕ} {s : Server} {request : StoreServerRequest} {row : Row}

def after (clock : ℕ → ℕ) (s : Server) (request : StoreServerRequest) : Server :=
  (handleRequest clock s request).1

section

variable (clock : ℕ → ℕ) (s : Server) (request : StoreServerRequest)

theorem rows_after :
    (after clock s request).table.rows =
      s.table.rows ++ newRows clock s.table.nextId (s.readings + 1) request.outbox :=
  rows_insertAll clock { s with readings := s.readings + 1 } request.outbox

theorem readings_after :
    (after clock s request).readings = s.readings + 1 + request.outbox.length :=
  readings_insertAll clock { s with readings := s.readings + 1 } request.outbox

theorem lastTime_after (modemId : ℤ) :
    lastTime (after clock s request) modemId =
      if modemId = request.modemId then clock s.readings else lastTime s modemId := by
  simp only [lastTime, after, handleRequest, serve, lastRequestTime_insertAll, Function.update_apply]
  split_ifs <;> rfl

theorem stored_entry :
    (entry clock s request).stored =
      newRows clock s.table.nextId (s.readings + 1) request.outbox := by
  have hrows := rows_after clock s request
  rw [after] at hrows
  simp [entry, hrows]

end

theorem mem_returned :
    row ∈ (entry clock s request).returned ↔
      row ∈ (after clock s request).table.rows ∧ row.src ≠ request.modemId ∧
        lastTime s request.modemId < row.microtime ∧ row.microtime ≤ clock s.readings := by
  simp [entry, serve, Table.select, after, handleRequest, lastTime]

theorem nodup_returned (clock : ℕ → ℕ) (s : Server) (request : StoreServerRequest) :
    (entry clock s request).returned.Nodup :=
  ((insertAll clock { s with readings := s.readings + 1 } request.outbox).table.nodup_rows).filter _

/-- The time of a row stored before the server's next clock reading. -/
def StoredBefore (clock : ℕ → ℕ) (s : Server) (row : Row) : Prop :=
  row ∈ s.table.rows ∧ ∃ t < s.readings, row.microtime = clock t

/-- A row stored already is returned to those for whom it is later than their last request. -/
theorem StoredBefore.mem_returned (hclock : StrictMono clock) (h : StoredBefore clock s row) :
    row ∈ (entry clock s request).returned ↔
      row.src ≠ request.modemId ∧ lastTime s request.modemId < row.microtime := by
  obtain ⟨hrow, t, ht, hmicro⟩ := h
  have hle : row.microtime ≤ clock s.readings := hmicro ▸ (hclock ht).le
  rw [StoreServer.mem_returned, rows_after]
  constructor
  · rintro ⟨-, hsrc, hlast, -⟩
    exact ⟨hsrc, hlast⟩
  · rintro ⟨hsrc, hlast⟩
    exact ⟨List.mem_append_left _ hrow, hsrc, hlast, hle⟩

theorem StoredBefore.after (h : StoredBefore clock s row) :
    StoredBefore clock (StoreServer.after clock s request) row := by
  obtain ⟨hrow, t, ht, hmicro⟩ := h
  refine ⟨?_, t, ?_, hmicro⟩
  · rw [rows_after]
    exact List.mem_append_left _ hrow
  · rw [readings_after]
    omega

theorem storedBefore_of_stored (h : row ∈ (entry clock s request).stored) :
    StoredBefore clock (after clock s request) row := by
  rw [stored_entry] at h
  obtain ⟨-, t, -, ht, hmicro⟩ := mem_newRows h
  refine ⟨?_, t, by rwa [readings_after], hmicro⟩
  rw [rows_after]
  exact List.mem_append_right _ h

/-- The last requests known to the server were made before its next clock reading. -/
def Timely (clock : ℕ → ℕ) (s : Server) : Prop :=
  ∀ modemId, lastTime s modemId = 0 ∨ ∃ t < s.readings, lastTime s modemId = clock t

theorem Timely.after (h : Timely clock s) : Timely clock (StoreServer.after clock s request) := by
  intro modemId
  rw [lastTime_after, readings_after]
  split_ifs
  · exact .inr ⟨s.readings, by omega, rfl⟩
  · rcases h modemId with h | ⟨t, ht, he⟩
    · exact .inl h
    · exact .inr ⟨t, by omega, he⟩

/-- What a request stores is later than every request so far, its own included. -/
theorem Timely.lastTime_lt (hclock : StrictMono clock) (h : Timely clock s)
    (hrow : row ∈ (entry clock s request).stored) (modemId : ℤ) :
    lastTime (StoreServer.after clock s request) modemId < row.microtime := by
  rw [stored_entry] at hrow
  obtain ⟨-, t, ht, -, hmicro⟩ := mem_newRows hrow
  have hreq : clock s.readings < row.microtime := hmicro ▸ hclock (by omega)
  rw [lastTime_after]
  split_ifs
  · exact hreq
  · rcases h modemId with h | ⟨t', ht', he⟩
    · omega
    · rw [he]
      exact (hclock ht').trans hreq

end Serving

section Runs

variable {clock : ℕ → ℕ} {s : Server} {requests : List StoreServerRequest} {e : Entry} {row : Row}

theorem log_cons (clock : ℕ → ℕ) (s : Server) (request : StoreServerRequest)
    (requests : List StoreServerRequest) :
    log clock s (request :: requests) =
      entry clock s request :: log clock (after clock s request) requests := rfl

theorem map_request_log (clock : ℕ → ℕ) (s : Server) (requests : List StoreServerRequest) :
    (log clock s requests).map Entry.request = requests := by
  induction requests generalizing s with
  | nil => rfl
  | cons request requests ih =>
    rw [log_cons, List.map_cons, ih]
    rfl

theorem exists_entry_of_mem_log (h : e ∈ log clock s requests) :
    ∃ s' request, s.readings ≤ s'.readings ∧ e = entry clock s' request := by
  induction requests generalizing s with
  | nil => simp [log] at h
  | cons request requests ih =>
    rw [log_cons] at h
    rcases List.mem_cons.mp h with rfl | h
    · exact ⟨s, request, le_rfl, rfl⟩
    · obtain ⟨s', r, hle, he⟩ := ih h
      rw [readings_after] at hle
      exact ⟨s', r, by omega, he⟩

section

variable (clock : ℕ → ℕ) (s : Server) (requests : List StoreServerRequest)

theorem rows_foldl_after :
    (requests.foldl (after clock) s).table.rows =
      s.table.rows ++ (log clock s requests).flatMap Entry.stored := by
  induction requests generalizing s with
  | nil => simp [log]
  | cons request requests ih =>
    rw [List.foldl_cons, ih, rows_after, log_cons, List.flatMap_cons, stored_entry, List.append_assoc]

theorem nodup_stored : ((log clock s requests).flatMap Entry.stored).Nodup := by
  have hnodup := (requests.foldl (after clock) s).table.nodup_rows
  rw [rows_foldl_after] at hnodup
  exact hnodup.of_append_right

end

/-- No request between the two, both left out, is one of the given modem. -/
def NoneBetween (l : List Entry) (k j : ℕ) (modemId : ℤ) : Prop :=
  ∀ i e, k < i → i < j → l[i]? = some e → e.request.modemId ≠ modemId

theorem noneBetween_succ {l : List Entry} {k j : ℕ} {modemId : ℤ} :
    NoneBetween (e :: l) (k + 1) (j + 1) modemId ↔ NoneBetween l k j modemId := by
  constructor
  · intro h i e' hk hj he
    exact h (i + 1) e' (by omega) (by omega) he
  · intro h i e' hk hj he
    obtain ⟨i, rfl⟩ : ∃ i', i = i' + 1 := ⟨i - 1, by omega⟩
    exact h i e' (by omega) (by omega) he

/-- A row that is there from the start goes to the first request of each modem that
has not asked since it was stored. -/
theorem StoredBefore.mem_returned_log (hclock : StrictMono clock)
    (h : StoredBefore clock s row) {j : ℕ} (he : (log clock s requests)[j]? = some e) :
    row ∈ e.returned ↔
      row.src ≠ e.request.modemId ∧ lastTime s e.request.modemId < row.microtime ∧
        ∀ i e', i < j → (log clock s requests)[i]? = some e' →
          e'.request.modemId ≠ e.request.modemId := by
  induction requests generalizing s j with
  | nil => simp [log] at he
  | cons request requests ih =>
    rw [log_cons] at he ⊢
    cases j with
    | zero =>
      obtain rfl : entry clock s request = e := by simpa using he
      rw [h.mem_returned hclock]
      constructor
      · rintro ⟨hsrc, hlast⟩
        exact ⟨hsrc, hlast, fun i _ hi => absurd hi (Nat.not_lt_zero i)⟩
      · rintro ⟨hsrc, hlast, -⟩
        exact ⟨hsrc, hlast⟩
    | succ j =>
      rw [ih h.after he, lastTime_after]
      obtain ⟨-, t, ht, hmicro⟩ := h
      have hearlier : ¬ clock s.readings < row.microtime := by
        rw [hmicro]
        exact Nat.not_lt.mpr (hclock ht).le
      constructor
      · rintro ⟨hsrc, hlast, hnone⟩
        split_ifs at hlast with hm
        · exact absurd hlast hearlier
        · refine ⟨hsrc, hlast, ?_⟩
          intro i e' hi hentry
          cases i with
          | zero =>
            obtain rfl : entry clock s request = e' := by simpa using hentry
            exact fun heq => hm heq.symm
          | succ i => exact hnone i e' (by omega) hentry
      · rintro ⟨hsrc, hlast, hnone⟩
        have hm : ¬ e.request.modemId = request.modemId :=
          fun heq => hnone 0 _ (by omega) rfl heq.symm
        rw [if_neg hm]
        exact ⟨hsrc, hlast, fun i e' hi hentry => hnone (i + 1) e' (by omega) hentry⟩

theorem not_mem_returned_of_later (hclock : StrictMono clock) {s' : Server}
    {request request' : StoreServerRequest} (hle : s.readings ≤ s'.readings)
    (hrow : row ∈ (entry clock s' request').stored) : row ∉ (entry clock s request).returned := by
  rw [stored_entry] at hrow
  obtain ⟨-, t, ht, -, hmicro⟩ := mem_newRows hrow
  rw [StoreServer.mem_returned]
  rintro ⟨-, -, -, hupTo⟩
  rw [hmicro] at hupTo
  exact absurd (hclock.le_iff_le.mp hupTo) (by omega)

theorem mem_returned_log_iff (hclock : StrictMono clock) (hs : Timely clock s) {k j : ℕ}
    {e e' : Entry} (he : (log clock s requests)[k]? = some e) (hrow : row ∈ e.stored)
    (he' : (log clock s requests)[j]? = some e') :
    row ∈ e'.returned ↔
      k < j ∧ row.src ≠ e'.request.modemId ∧
        NoneBetween (log clock s requests) k j e'.request.modemId := by
  induction requests generalizing s k j with
  | nil => simp [log] at he
  | cons request requests ih =>
    rw [log_cons] at he he' ⊢
    cases k with
    | zero =>
      obtain rfl : entry clock s request = e := by simpa using he
      cases j with
      | zero =>
        obtain rfl : entry clock s request = e' := by simpa using he'
        simp [not_mem_returned_of_later hclock le_rfl hrow]
      | succ j =>
        have hstored := (storedBefore_of_stored hrow).mem_returned_log hclock he'
        have hlate := hs.lastTime_lt hclock hrow e'.request.modemId
        rw [hstored]
        constructor
        · rintro ⟨hsrc, -, hnone⟩
          refine ⟨by omega, hsrc, ?_⟩
          intro i e'' hi hj hentry
          obtain ⟨i, rfl⟩ : ∃ i', i = i' + 1 := ⟨i - 1, by omega⟩
          exact hnone i e'' (by omega) hentry
        · rintro ⟨-, hsrc, hnone⟩
          refine ⟨hsrc, hlate, ?_⟩
          intro i e'' hi hentry
          exact hnone (i + 1) e'' (by omega) (by omega) hentry
    | succ k =>
      cases j with
      | zero =>
        obtain rfl : entry clock s request = e' := by simpa using he'
        obtain ⟨s', request', hle, rfl⟩ := exists_entry_of_mem_log (List.mem_of_getElem? he)
        rw [readings_after] at hle
        simp [not_mem_returned_of_later hclock (by omega : s.readings ≤ s'.readings) hrow]
      | succ j =>
        rw [noneBetween_succ, Nat.succ_lt_succ_iff]
        exact ih hs.after he he'

end Runs

def started (table : Table) : Server := { table := table }

/-- Over any requests to a server that has just been started: what each of them stores
is its outbox, and each row is returned to any modem but its source once, by the first
request of that modem after the one that stored it. -/
theorem stored_returned_exactly_once (clock : ℕ → ℕ) (hclock : StrictMono clock) (table : Table)
    (requests : List StoreServerRequest) :
    (log clock (started table) requests).map Entry.request = requests ∧
    ((log clock (started table) requests).flatMap Entry.stored).Nodup ∧
    ∀ (k : ℕ) (e : Entry), (log clock (started table) requests)[k]? = some e →
      e.stored.map Row.bytes = e.request.outbox ∧ e.response.inbox = e.returned.map Row.bytes ∧
      ∀ row ∈ e.stored, row.src = row.bytes.src ∧
        ∀ (j : ℕ) (e' : Entry), (log clock (started table) requests)[j]? = some e' →
          e'.returned.count row ≤ 1 ∧
          (e'.returned.count row = 1 ↔
            k < j ∧ row.src ≠ e'.request.modemId ∧
              NoneBetween (log clock (started table) requests) k j e'.request.modemId) := by
  refine ⟨map_request_log .., nodup_stored .., ?_⟩
  intro k e he
  obtain ⟨s, request, -, rfl⟩ := exists_entry_of_mem_log (List.mem_of_getElem? he)
  refine ⟨?_, rfl, ?_⟩
  · rw [stored_entry]
    exact map_bytes_newRows ..
  intro row hrow
  refine ⟨(mem_newRows (stored_entry .. ▸ hrow)).1, ?_⟩
  intro j e' he'
  obtain ⟨s', request', -, rfl⟩ := exists_entry_of_mem_log (List.mem_of_getElem? he')
  have hnodup := nodup_returned clock s' request'
  refine ⟨List.nodup_iff_count_le_one.mp hnodup row, ?_⟩
  rw [← mem_returned_log_iff hclock (fun _ => .inl rfl) he hrow he']
  constructor
  · intro hcount
    exact List.count_pos_iff.mp (by omega)
  · exact List.count_eq_one_of_mem hnodup

def sampleTransmission : ModemTransmission := { src := 1, dest := some 2, type := .data }

/-- Modem 1 leaves a transmission; modem 2 asks, and asks again. -/
def sampleRequests : List StoreServerRequest :=
  [{ modemId := 1, outbox := [sampleTransmission] }, { modemId := 2 }, { modemId := 2 }]

theorem stored_returned_exactly_once_sample :
    (log id (started .create) sampleRequests).map (fun e => e.response.inbox) =
        [[], [sampleTransmission], []] ∧
      ∀ e, (log id (started .create) sampleRequests)[1]? = some e →
        e.returned.count ⟨1, 1, 2, 1, sampleTransmission⟩ = 1 := by
  refine ⟨by decide +kernel, ?_⟩
  intro e he
  have hrow := ((stored_returned_exactly_once id strictMono_id .create sampleRequests).2.2 0 _ rfl).2.2
    ⟨1, 1, 2, 1, sampleTransmission⟩ (List.mem_singleton_self _)
  have hmodem : e.request.modemId = 2 := by
    obtain rfl := Option.some.inj he
    rfl
  apply ((hrow.2 1 e he).2).mpr
  refine ⟨by decide, by rw [hmodem]; decide, ?_⟩
  intro i e' h0 h1
  omega

end Goby.StoreServer
