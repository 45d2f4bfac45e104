import Ghostferry.Lib.Machine

/-!
# The binlog streamer

`BinlogStreamer.Run` of `binlog_streamer.go` reads the binlog with `GetEvent`, from the position
`ConnectBinlogStreamerToMysql` read with `SHOW MASTER STATUS`, and keeps in
`lastStreamedBinlogPosition` where the events it has streamed end: a `RotateEvent` moves it to the
next file, a `FormatDescriptionEvent` carries no position, and any other event ends at its `LogPos`
in the current file, recorded for a `RowsEvent` once every listener has taken its DML events.
`handleRowsEvent` hands a rows event to the listeners only when its table is in `TableSchema`, and
only its DML events that pass the `CopyFilter`. `FlushAndStop`, from another goroutine, records
the current position in `targetBinlogPosition` and then sets `stopRequested`; the loop of `Run`
goes on until both are set and it has streamed up to the target.

`streamerStep` is a step of `Run`, of `FlushAndStop`, or of the source writing the next event of
the binlog, in any interleaving; `GetEvent` yields the events written, each once and in order, or
times out. A listener's error, a failed read of an event or of the position, and a conversion or
filter error end in `ErrorHandler.Fatal`. The binlog is in order when each event with a position
ends after where the events before it left it, by `Position.Compare` (`BinlogOrdered`).

`StreamInv` holds in every state a run reaches: `Run` stands where the events it streamed end,
and the listeners have been handed exactly the rows events it streamed on tables in the cache.
`Run_hands_rows_events`: the position never goes back, each listener is handed rows events in
binlog order and at most once, and when `Run` returns every rows event that ends by the target is
handed to every listener if its table is in the cache, and to none otherwise
(`uncached_rows_event_not_handed`).
-/

namespace Ghostferry

open Machine

/-! ## Positions -/

/-- `mysql.Position`: a binlog file and a position in it. -/
structure Position where
  Name : String
  Pos : UInt32
  deriving DecidableEq, Repr

/-- `Position.Compare` of go-mysql: by file name, then by position. -/
def Position.Compare (p o : Position) : Int :=
  if p.Name > o.Name then 1
  else if p.Name < o.Name then -1
  else if p.Pos > o.Pos then 1
  else if p.Pos < o.Pos then -1
  else 0

/-- A position as a pair ordered lexicographically, file name first. -/
def Position.lexKey (p : Position) : String ×ₗ ℕ := toLex (p.Name, p.Pos.toNat)

/-- Two positions with one key are one position. -/
theorem Position.lexKey_injective : Function.Injective Position.lexKey := by
  intro p q h
  simp only [Position.lexKey, toLex_inj, Prod.mk.injEq] at h
  obtain ⟨hname, hpos⟩ := h
  cases p
  cases q
  simp only [Position.mk.injEq]
  exact ⟨hname, UInt32.toNat_inj.mp hpos⟩

/-- The order of positions in the binlog, file by file. -/
instance : LinearOrder Position := LinearOrder.lift' Position.lexKey Position.lexKey_injective

theorem Position.lt_iff {p q : Position} :
    p < q ↔ p.Name < q.Name ∨ p.Name = q.Name ∧ p.Pos < q.Pos := by
  change p.lexKey < q.lexKey ↔ _
  rw [Position.lexKey, Position.lexKey, Prod.Lex.toLex_lt_toLex, UInt32.lt_iff_toNat_lt]

/-- `Compare` is negative exactly when the first position comes before the second. -/
theorem Position.Compare_neg_iff (p q : Position) : p.Compare q < 0 ↔ p < q := by
  rw [Position.lt_iff]
  unfold Position.Compare
  split_ifs with hgt hlt hpgt hplt
  · -- a later file
    simp only [Int.reduceLT, false_iff, not_or, not_and]
    exact ⟨lt_asymm hgt, fun h => absurd h (ne_of_gt hgt)⟩
  · simp [hlt]
  · -- the same file, a later position
    rw [GT.gt, UInt32.lt_iff_toNat_lt] at hpgt
    simp only [Int.reduceLT, false_iff, not_or, not_and, UInt32.lt_iff_toNat_lt]
    exact ⟨hlt, fun _ => by omega⟩
  · have hname : p.Name = q.Name := le_antisymm (not_lt.mp hgt) (not_lt.mp hlt)
    simp [hname, hplt]
  · simp only [Int.reduceLT, false_iff, not_or, not_and]
    exact ⟨hlt, fun _ => hplt⟩

/-! ## Events -/

/-- The events `Run` tells apart, with the fields it reads of each. -/
inductive BinlogEventData (ρ : Type*) where
  | RotateEvent (Position : UInt64) (NextLogName : String)
  | RowsEvent (Schema Table : String) (Rows : ρ)
  | FormatDescriptionEvent
  /-- Any other event: `Run` records where it ends. -/
  | other

/-- `replication.BinlogEvent`, with the fields of its header that `Run` reads. -/
structure BinlogEvent (ρ : Type*) where
  Timestamp : UInt32
  LogPos : UInt32
  Event : BinlogEventData ρ

variable {ρ T : Type*} {D ε : Type}

/-- Whether an event carries a position: all but the format description. -/
def BinlogEventData.HasPosition : BinlogEventData ρ → Bool
  | .FormatDescriptionEvent => false
  | _ => true

/-- Where the binlog stands after an event: a rotate moves to its next file, a format description
carries no position, and any other event ends at its `LogPos` in the current file. -/
def nextPosition (p : Position) (ev : BinlogEvent ρ) : Position :=
  match ev.Event with
  | .RotateEvent position NextLogName => ⟨NextLogName, position.toUInt32⟩
  | .FormatDescriptionEvent => p
  | _ => { p with Pos := ev.LogPos }

/-- Where the binlog stands after `events`, from `start`. -/
def binlogPosition (start : Position) (events : List (BinlogEvent ρ)) : Position :=
  events.foldl nextPosition start

/-- `ShowMasterStatusBinlogPosition`: where the binlog written so far ends, its first `written`
events after `start`. -/
def ShowMasterStatusBinlogPosition (start : Position) (log : List (BinlogEvent ρ))
    (written : ℕ) : Position :=
  binlogPosition start (log.take written)

/-- The binlog is in order: each event with a position ends after where the events before it
left the binlog. -/
def BinlogOrdered (start : Position) (log : List (BinlogEvent ρ)) : Prop :=
  ∀ (k : ℕ) (hk : k < log.length), log[k].Event.HasPosition = true →
    binlogPosition start (log.take k) < nextPosition (binlogPosition start (log.take k)) log[k]

/-! ## The binlog in order -/

section Order

variable {start : Position} {log : List (BinlogEvent ρ)} {k : ℕ} {ev : BinlogEvent ρ}

theorem nextPosition_eq_self {p : Position} (h : ev.Event.HasPosition = false) :
    nextPosition p ev = p := by
  rcases ev with ⟨_, _, _ | _ | _ | _⟩ <;>
    simp_all [BinlogEventData.HasPosition, nextPosition]

theorem binlogPosition_take_succ (hk : log[k]? = some ev) :
    binlogPosition start (log.take (k + 1)) =
      nextPosition (binlogPosition start (log.take k)) ev := by
  rw [binlogPosition, List.take_add_one, hk, List.foldl_append]
  rfl

/-- An event with a position moves the binlog forward. -/
theorem binlogPosition_lt_succ (hord : BinlogOrdered start log) (hk : log[k]? = some ev)
    (hpos : ev.Event.HasPosition = true) :
    binlogPosition start (log.take k) < binlogPosition start (log.take (k + 1)) := by
  obtain ⟨hlt, rfl⟩ := List.getElem?_eq_some_iff.mp hk
  rw [binlogPosition_take_succ hk]
  exact hord k hlt hpos

theorem binlogPosition_le_succ (hord : BinlogOrdered start log) (hk : log[k]? = some ev) :
    binlogPosition start (log.take k) ≤ binlogPosition start (log.take (k + 1)) := by
  cases hpos : ev.Event.HasPosition
  · -- a format description leaves the binlog where it was
    rw [binlogPosition_take_succ hk, nextPosition_eq_self hpos]
  · exact (binlogPosition_lt_succ hord hk hpos).le

theorem binlogPosition_mono (hord : BinlogOrdered start log) {i j : ℕ} (hij : i ≤ j)
    (hj : j ≤ log.length) :
    binlogPosition start (log.take i) ≤ binlogPosition start (log.take j) := by
  induction j, hij using Nat.le_induction with
  | base => exact le_rfl
  | succ j hij ih =>
    have hk : log[j]? = some log[j] := List.getElem?_eq_getElem (by omega)
    exact (ih (by omega)).trans (binlogPosition_le_succ hord hk)

/-- An event with a position that ends by where the first `n` events end is one of them. -/
theorem lt_of_binlogPosition_le (hord : BinlogOrdered start log) {m n : ℕ}
    (hm : log[m]? = some ev) (hpos : ev.Event.HasPosition = true)
    (hle : binlogPosition start (log.take (m + 1)) ≤ binlogPosition start (log.take n)) :
    m < n := by
  by_contra hmn
  have hlen : m < log.length := (List.getElem?_eq_some_iff.mp hm).1
  have hlt :=
    calc binlogPosition start (log.take n)
        ≤ binlogPosition start (log.take m) := binlogPosition_mono hord (by omega) hlen.le
      _ < binlogPosition start (log.take (m + 1)) := binlogPosition_lt_succ hord hm hpos
  exact absurd hle (not_le.mpr hlt)

end Order

/-! ## The streamer -/

/-- What `Run` reads of a `BinlogStreamer` besides its positions: `TableSchema.Get`, the
conversion `NewBinlogDMLEvents` of a rows event, the `CopyFilter` if there is one, and the number
of listeners added with `AddEventListener`. -/
structure BinlogStreamer (ρ T D ε : Type*) where
  TableSchema : String → String → Option T
  NewBinlogDMLEvents : T → BinlogEvent ρ → Except ε (List D)
  Filter : Option (D → Except ε Bool)
  eventListeners : ℕ

/-- `handleRowsEvent` up to its calls of the listeners: the DML events it hands them, `none` when
the table is not in the cache, or its error. -/
def BinlogStreamer.handleRowsEvent (b : BinlogStreamer ρ T D ε) (ev : BinlogEvent ρ)
    (Schema Table : String) : Except ε (Option (List D)) :=
  match b.TableSchema Schema Table with
  | none => .ok none
  | some table => do
    let dmlEvs ← b.NewBinlogDMLEvents table ev
    match b.Filter with
    | none => return some dmlEvs
    | some ApplicableEvent => return some (← dmlEvs.filterM ApplicableEvent)

/-- Where the goroutine that runs `Run` is. -/
inductive StreamerPhase where
  /-- At the condition of the loop. -/
  | checking
  /-- In the loop, at `GetEvent`. -/
  | fetching
  /-- `Run` has returned: the loop's condition failed. -/
  | returned
  /-- `ErrorHandler.Fatal` was called and `Run` returned. -/
  | fatal
  /-- `updateLastStreamedPosAndTime` panicked on an event without a position or a time. -/
  | panicked
  deriving DecidableEq, Repr

/-- `Run` is in its loop or has returned from it without an error. -/
def StreamerPhase.Live (p : StreamerPhase) : Prop :=
  p = .checking ∨ p = .fetching ∨ p = .returned

/-- Where `FlushAndStop` is. -/
inductive FlushPhase where
  | notCalled
  /-- It has recorded `targetBinlogPosition`. -/
  | recorded
  /-- It has set `stopRequested`. -/
  | done
  /-- Reading the position failed: `ErrorHandler.Fatal`. -/
  | failed
  deriving DecidableEq, Repr

structure StreamerState (D : Type) where
  /-- The events of the binlog written so far. -/
  written : ℕ
  /-- The events `GetEvent` has returned. -/
  streamed : ℕ
  lastStreamedBinlogPosition : Position
  targetBinlogPosition : Position
  stopRequested : Bool
  phase : StreamerPhase
  flush : FlushPhase
  /-- Every call of a listener, in order: the listener, the index of the rows event in the binlog,
  and the DML events handed. -/
  handed : List (ℕ × ℕ × List D)

/-- After `ConnectBinlogStreamerToMysql` and `Initialize`, from the position `start`. -/
def StreamerState.init (start : Position) : StreamerState D :=
  ⟨0, 0, start, ⟨"", 0⟩, false, .checking, .notCalled, []⟩

/-- The steps of `Run`, of `FlushAndStop` and of the source. -/
inductive StreamerAction where
  /-- The source writes the next event of the binlog. -/
  | write
  /-- `FlushAndStop` reads the current position into `targetBinlogPosition`. -/
  | recordTarget
  /-- `FlushAndStop` sets `stopRequested`. -/
  | requestStop
  /-- `FlushAndStop` cannot read the position. -/
  | flushFail
  /-- `Run` evaluates the condition of its loop. -/
  | check
  /-- `GetEvent` times out. -/
  | timeout
  /-- `GetEvent` fails five times. -/
  | getEventFail
  /-- `GetEvent` returns the next event; for a rows event, `listenerErr` is the first listener
  that returns an error, if one does. -/
  | next (listenerErr : Option ℕ)
  deriving DecidableEq, Repr

/-- `updateLastStreamedPosAndTime`: the event ends at its `LogPos` in the current file. -/
def updateLastStreamedPosAndTime (s : StreamerState D) (ev : BinlogEvent ρ) : StreamerState D :=
  if ev.LogPos = 0 ∨ ev.Timestamp = 0 then { s with phase := .panicked }
  else
    { s with
      lastStreamedBinlogPosition := { s.lastStreamedBinlogPosition with Pos := ev.LogPos }
      phase := .checking }

/-- The body of the loop once `GetEvent` returned the event `k`; `none` when `listenerErr` names
no listener. -/
def streamEvent (b : BinlogStreamer ρ T D ε) (s : StreamerState D) (k : ℕ) (ev : BinlogEvent ρ)
    (listenerErr : Option ℕ) : Option (StreamerState D) :=
  match ev.Event with
  | .RotateEvent position NextLogName =>
    some { s with
      lastStreamedBinlogPosition := ⟨NextLogName, position.toUInt32⟩
      phase := .checking }
  | .RowsEvent Schema Table _ =>
    match b.handleRowsEvent ev Schema Table with
    | .error _ => some { s with phase := .fatal }
    -- the table is not in the cache: no listener is called
    | .ok none => some (updateLastStreamedPosAndTime s ev)
    | .ok (some events) =>
      match listenerErr with
      | none =>
        some (updateLastStreamedPosAndTime
          { s with handed := s.handed ++ (List.range b.eventListeners).map fun l => (l, k, events) }
          ev)
      | some l =>
        if l < b.eventListeners then
          some { s with
            handed := s.handed ++ (List.range (l + 1)).map fun i => (i, k, events)
            phase := .fatal }
        else none
  -- the format description carries no position
  | .FormatDescriptionEvent => some { s with phase := .checking }
  | .other => some (updateLastStreamedPosAndTime s ev)

/-- One step of `Run`, of `FlushAndStop` or of the source, over the binlog `log` after `start`. -/
def streamerStep (b : BinlogStreamer ρ T D ε) (start : Position) (log : List (BinlogEvent ρ))
    (s : StreamerState D) : StreamerAction → Option (StreamerState D)
  | .write => if s.written < log.length then some { s with written := s.written + 1 } else none
  | .recordTarget =>
    if s.flush = .notCalled then
      some { s with
        targetBinlogPosition := ShowMasterStatusBinlogPosition start log s.written
        flush := .recorded }
    else none
  | .requestStop =>
    if s.flush = .recorded then some { s with stopRequested := true, flush := .done } else none
  | .flushFail => if s.flush = .notCalled then some { s with flush := .failed } else none
  | .check =>
    if s.phase = .checking then
      some { s with
        phase :=
          if !s.stopRequested || (s.stopRequested &&
              s.lastStreamedBinlogPosition.Compare s.targetBinlogPosition < 0) then .fetching
          else .returned }
    else none
  | .timeout => if s.phase = .fetching then some { s with phase := .checking } else none
  | .getEventFail => if s.phase = .fetching then some { s with phase := .fatal } else none
  | .next listenerErr =>
    if s.phase = .fetching ∧ s.streamed < s.written then
      (log[s.streamed]?).bind fun ev =>
        streamEvent b { s with streamed := s.streamed + 1 } s.streamed ev listenerErr
    else none

/-! ## What the listeners are handed -/

/-- The indices of the rows events handed to listener `l`, in the order of the calls. -/
def handedTo (l : ℕ) (handed : List (ℕ × ℕ × List D)) : List ℕ :=
  (handed.filter fun h => h.1 = l).map fun h => h.2.1

/-- The calls of the listeners for the event `k` of the binlog once `Run` has streamed it: every
listener is handed the DML events of a rows event on a table in the cache. -/
def handedFor (b : BinlogStreamer ρ T D ε) (ev : BinlogEvent ρ) (k : ℕ) :
    List (ℕ × ℕ × List D) :=
  match ev.Event with
  | .RowsEvent Schema Table _ =>
    match b.handleRowsEvent ev Schema Table with
    | .ok (some events) => (List.range b.eventListeners).map fun l => (l, k, events)
    | _ => []
  | _ => []

/-- The calls of the listeners for the first `k` events of the binlog. -/
def handedUpTo (b : BinlogStreamer ρ T D ε) (log : List (BinlogEvent ρ)) :
    ℕ → List (ℕ × ℕ × List D)
  | 0 => []
  | k + 1 =>
    handedUpTo b log k ++
      match log[k]? with
      | some ev => handedFor b ev k
      | none => []

/-- A rows event converts, and passes the filter, without an error. -/
def BinlogStreamer.RowsHandled (b : BinlogStreamer ρ T D ε) (ev : BinlogEvent ρ) : Prop :=
  match ev.Event with
  | .RowsEvent Schema Table _ => ∀ e, b.handleRowsEvent ev Schema Table ≠ .error e
  | _ => True

section Handed

variable {b : BinlogStreamer ρ T D ε} {log : List (BinlogEvent ρ)} {ev : BinlogEvent ρ}
  {k n : ℕ} {handed : List (ℕ × ℕ × List D)} {h : ℕ × ℕ × List D}

@[simp]
theorem handedTo_append (l : ℕ) (xs ys : List (ℕ × ℕ × List D)) :
    handedTo l (xs ++ ys) = handedTo l xs ++ handedTo l ys := by
  simp [handedTo]

theorem mem_handedTo {l i : ℕ} :
    i ∈ handedTo l handed ↔ ∃ h ∈ handed, h.1 = l ∧ h.2.1 = i := by
  simp [handedTo]

/-- Of the listeners `0, ..., n - 1` handed the event `k`, listener `l` is handed it once if it
is one of them. -/
theorem handedTo_range_map (l k n : ℕ) (events : List D) :
    handedTo l ((List.range n).map fun i => (i, k, events)) = if l < n then [k] else [] := by
  induction n with
  | zero => simp [handedTo]
  | succ n ih =>
    rw [List.range_succ, List.map_append, handedTo_append, ih]
    by_cases hln : l < n
    · simp [handedTo, hln, show n ≠ l by omega, show l < n + 1 by omega]
    · by_cases hnl : n = l
      · simp [handedTo, hnl]
      · simp [handedTo, hln, hnl, show ¬l < n + 1 by omega]

/-- Handing the event `k` to listeners, after events before `k`, keeps each listener's events in
binlog order. -/
theorem pairwise_handedTo_append_range (hlt : ∀ h ∈ handed, h.2.1 < k)
    (hord : ∀ l, (handedTo l handed).Pairwise (· < ·)) (n : ℕ) (events : List D) (l : ℕ) :
    (handedTo l (handed ++ (List.range n).map fun i => (i, k, events))).Pairwise (· < ·) := by
  rw [handedTo_append, handedTo_range_map, List.pairwise_append]
  refine ⟨hord l, by split_ifs <;> simp, ?_⟩
  intro i hi j hj
  obtain ⟨h, hh, -, rfl⟩ := mem_handedTo.mp hi
  have hjk : j = k := by split_ifs at hj <;> simp_all
  exact hjk ▸ hlt h hh

theorem lt_of_mem_append_range (hlt : ∀ h ∈ handed, h.2.1 < k) {events : List D}
    (hh : h ∈ handed ++ (List.range n).map fun i => (i, k, events)) : h.2.1 < k + 1 := by
  rcases List.mem_append.mp hh with hold | hnew
  · exact (hlt h hold).trans (Nat.lt_succ_self k)
  · obtain ⟨i, -, rfl⟩ := List.mem_map.mp hnew
    exact Nat.lt_succ_self k

theorem handedFor_eq_range_map (b : BinlogStreamer ρ T D ε) (ev : BinlogEvent ρ) (k : ℕ) :
    ∃ n events, handedFor b ev k = (List.range n).map fun l => (l, k, events) := by
  unfold handedFor
  split
  · split
    · exact ⟨_, _, rfl⟩
    · exact ⟨0, [], rfl⟩
  · exact ⟨0, [], rfl⟩

theorem index_of_mem_handedFor (hh : h ∈ handedFor b ev k) : h.2.1 = k := by
  obtain ⟨n, events, heq⟩ := handedFor_eq_range_map b ev k
  rw [heq] at hh
  obtain ⟨i, -, rfl⟩ := List.mem_map.mp hh
  rfl

theorem handedUpTo_succ (hk : log[k]? = some ev) :
    handedUpTo b log (k + 1) = handedUpTo b log k ++ handedFor b ev k := by
  simp [handedUpTo, hk]

theorem mem_handedUpTo :
    h ∈ handedUpTo b log n ↔ ∃ m < n, ∃ ev, log[m]? = some ev ∧ h ∈ handedFor b ev m := by
  induction n with
  | zero => simp [handedUpTo]
  | succ n ih =>
    cases hn : log[n]? with
    | none =>
      -- past the end of the binlog nothing more is handed
      simp only [handedUpTo, hn, List.append_nil, ih]
      constructor
      · rintro ⟨m, hm, ev', hev', hh⟩
        exact ⟨m, by omega, ev', hev', hh⟩
      · rintro ⟨m, hm, ev', hev', hh⟩
        have hmn : m ≠ n := by
          rintro rfl
          simp [hn] at hev'
        exact ⟨m, by omega, ev', hev', hh⟩
    | some ev =>
      rw [handedUpTo_succ hn, List.mem_append, ih]
      constructor
      · rintro (⟨m, hm, ev', hev', hh⟩ | hh)
        · exact ⟨m, by omega, ev', hev', hh⟩
        · exact ⟨n, by omega, ev, hn, hh⟩
      · rintro ⟨m, hm, ev', hev', hh⟩
        rcases Nat.lt_succ_iff_lt_or_eq.mp hm with hm | rfl
        · exact .inl ⟨m, hm, ev', hev', hh⟩
        · obtain rfl : ev' = ev := Option.some.inj (hev'.symm.trans hn)
          exact .inr hh

end Handed

/-! ## What a step does -/

section Steps

variable {b : BinlogStreamer ρ T D ε} {start : Position} {log : List (BinlogEvent ρ)}
  {s s' : StreamerState D} {k : ℕ} {ev : BinlogEvent ρ} {listenerErr : Option ℕ}

/-- `handleRowsEvent` has nothing to hand exactly when the table is not in the cache. -/
theorem handleRowsEvent_ok_none_iff {Schema Table : String} :
    b.handleRowsEvent ev Schema Table = .ok none ↔ b.TableSchema Schema Table = none := by
  unfold BinlogStreamer.handleRowsEvent
  cases hts : b.TableSchema Schema Table with
  | none => simp
  | some table =>
    simp only [reduceCtorEq, iff_false]
    cases b.NewBinlogDMLEvents table ev with
    | error e => simp [bind, Except.bind]
    | ok dmlEvs =>
      cases b.Filter with
      | none => simp [bind, Except.bind, pure, Except.pure]
      | some f =>
        cases hf : dmlEvs.filterM f <;> simp [hf, bind, Except.bind, pure, Except.pure]

theorem updateLastStreamedPosAndTime_cases {t : StreamerState D}
    (h : updateLastStreamedPosAndTime t ev = s') :
    s' = { t with
        lastStreamedBinlogPosition := { t.lastStreamedBinlogPosition with Pos := ev.LogPos }
        phase := .checking } ∨
      s' = { t with phase := .panicked } := by
  unfold updateLastStreamedPosAndTime at h
  split_ifs at h
  · exact .inr h.symm
  · exact .inl h.symm

/-- The body of the loop either records where the event ends, after handing a rows event on a
table in the cache to every listener, or ends in a fatal error or a panic, with the position
unchanged and the event handed to the listeners called before the one that failed. -/
theorem streamEvent_eq_some (h : streamEvent b s k ev listenerErr = some s') :
    (b.RowsHandled ev ∧
      s' = { s with
        lastStreamedBinlogPosition := nextPosition s.lastStreamedBinlogPosition ev
        phase := .checking
        handed := s.handed ++ handedFor b ev k }) ∨
    (∃ p n events, (p = .fatal ∨ p = .panicked) ∧
      s' = { s with
        phase := p
        handed := s.handed ++ (List.range n).map fun l => (l, k, events) }) := by
  unfold streamEvent at h
  split at h
  · rename_i position NextLogName hev
    rw [← Option.some.inj h]
    exact .inl ⟨by simp [BinlogStreamer.RowsHandled, hev],
      by simp [nextPosition, handedFor, hev]⟩
  · rename_i Schema Table Rows hev
    split at h
    · -- the conversion or the filter failed
      rw [← Option.some.inj h]
      exact .inr ⟨.fatal, 0, [], .inl rfl, by simp⟩
    · -- the table is not in the cache: no listener is called
      rename_i hrows
      rcases updateLastStreamedPosAndTime_cases (Option.some.inj h) with rfl | rfl
      · exact .inl ⟨by simp [BinlogStreamer.RowsHandled, hev, hrows],
          by simp [nextPosition, handedFor, hev, hrows]⟩
      · exact .inr ⟨.panicked, 0, [], .inr rfl, by simp⟩
    · rename_i events hrows
      split at h
      · -- every listener took the events
        rcases updateLastStreamedPosAndTime_cases (Option.some.inj h) with rfl | rfl
        · exact .inl ⟨by simp [BinlogStreamer.RowsHandled, hev, hrows],
            by simp [nextPosition, handedFor, hev, hrows]⟩
        · exact .inr ⟨.panicked, b.eventListeners, events, .inr rfl, rfl⟩
      · -- listener `l` failed, after the listeners before it took the events
        rename_i l
        split_ifs at h with hl
        rw [← Option.some.inj h]
        exact .inr ⟨.fatal, l + 1, events, .inl rfl, rfl⟩
  · rename_i hev
    rw [← Option.some.inj h]
    exact .inl ⟨by simp [BinlogStreamer.RowsHandled, hev],
      by simp [nextPosition, handedFor, hev]⟩
  · rename_i hev
    rcases updateLastStreamedPosAndTime_cases (Option.some.inj h) with rfl | rfl
    · exact .inl ⟨by simp [BinlogStreamer.RowsHandled, hev],
        by simp [nextPosition, handedFor, hev]⟩
    · exact .inr ⟨.panicked, 0, [], .inr rfl, by simp⟩

theorem streamerStep_write (h : streamerStep b start log s .write = some s') :
    s.written < log.length ∧ s' = { s with written := s.written + 1 } := by
  simp only [streamerStep] at h
  split_ifs at h with hw
  exact ⟨hw, (Option.some.inj h).symm⟩

theorem streamerStep_recordTarget (h : streamerStep b start log s .recordTarget = some s') :
    s.flush = .notCalled ∧
      s' = { s with
        targetBinlogPosition := ShowMasterStatusBinlogPosition start log s.written
        flush := .recorded } := by
  simp only [streamerStep] at h
  split_ifs at h with hf
  exact ⟨hf, (Option.some.inj h).symm⟩

theorem streamerStep_requestStop (h : streamerStep b start log s .requestStop = some s') :
    s.flush = .recorded ∧ s' = { s with stopRequested := true, flush := .done } := by
  simp only [streamerStep] at h
  split_ifs at h with hf
  exact ⟨hf, (Option.some.inj h).symm⟩

theorem streamerStep_flushFail (h : streamerStep b start log s .flushFail = some s') :
    s.flush = .notCalled ∧ s' = { s with flush := .failed } := by
  simp only [streamerStep] at h
  split_ifs at h with hf
  exact ⟨hf, (Option.some.inj h).symm⟩

/-- The loop goes on while no stop is requested or `Run` stands before the target. -/
theorem streamerStep_check (h : streamerStep b start log s .check = some s') :
    s.phase = .checking ∧
      ((s.stopRequested = false ∨ s.lastStreamedBinlogPosition < s.targetBinlogPosition) ∧
          s' = { s with phase := .fetching } ∨
        s.stopRequested = true ∧ s.targetBinlogPosition ≤ s.lastStreamedBinlogPosition ∧
          s' = { s with phase := .returned }) := by
  simp only [streamerStep] at h
  split_ifs at h with hc hcond
  · -- the loop goes on
    refine ⟨hc, .inl ⟨?_, (Option.some.inj h).symm⟩⟩
    cases hstop : s.stopRequested
    · exact .inl rfl
    · simp only [hstop, Bool.not_true, Bool.false_or, Bool.true_and,
        decide_eq_true_eq] at hcond
      exact .inr ((Position.Compare_neg_iff _ _).mp hcond)
  · -- the loop ends: a stop was requested and `Run` stands at or after the target
    have hstop : s.stopRequested = true := by
      by_contra hne
      simp [Bool.eq_false_iff.mpr hne] at hcond
    simp only [hstop, Bool.not_true, Bool.false_or, Bool.true_and, decide_eq_true_eq] at hcond
    exact ⟨hc, .inr ⟨hstop, not_lt.mp (mt (Position.Compare_neg_iff _ _).mpr hcond),
      (Option.some.inj h).symm⟩⟩

theorem streamerStep_timeout (h : streamerStep b start log s .timeout = some s') :
    s.phase = .fetching ∧ s' = { s with phase := .checking } := by
  simp only [streamerStep] at h
  split_ifs at h with hp
  exact ⟨hp, (Option.some.inj h).symm⟩

theorem streamerStep_getEventFail (h : streamerStep b start log s .getEventFail = some s') :
    s.phase = .fetching ∧ s' = { s with phase := .fatal } := by
  simp only [streamerStep] at h
  split_ifs at h with hp
  exact ⟨hp, (Option.some.inj h).symm⟩

theorem streamerStep_next (h : streamerStep b start log s (.next listenerErr) = some s') :
    s.phase = .fetching ∧ s.streamed < s.written ∧ ∃ ev, log[s.streamed]? = some ev ∧
      streamEvent b { s with streamed := s.streamed + 1 } s.streamed ev listenerErr = some s' := by
  simp only [streamerStep] at h
  split_ifs at h with hc
  obtain ⟨ev, hev, hs⟩ := Option.bind_eq_some_iff.mp h
  exact ⟨hc.1, hc.2, ev, hev, hs⟩

end Steps

/-! ## The invariant of the streamer -/

/-- What holds in every state a run reaches. While `Run` is in its loop or has returned from it,
it stands where the events it streamed end, and the listeners have been handed exactly the rows
events it streamed on tables in the cache; each listener's events are in binlog order in every
state; and `FlushAndStop` requests the stop only after it recorded a target, where the binlog
written so far ended. -/
structure StreamInv (b : BinlogStreamer ρ T D ε) (start : Position) (log : List (BinlogEvent ρ))
    (s : StreamerState D) : Prop where
  written_le : s.written ≤ log.length
  streamed_le : s.streamed ≤ s.written
  position : s.phase.Live →
    s.lastStreamedBinlogPosition = binlogPosition start (log.take s.streamed)
  handed : s.phase.Live → s.handed = handedUpTo b log s.streamed
  rows_ok : s.phase.Live → ∀ m < s.streamed, ∀ ev, log[m]? = some ev → b.RowsHandled ev
  handed_lt : ∀ h ∈ s.handed, h.2.1 < s.streamed
  order : ∀ l, (handedTo l s.handed).Pairwise (· < ·)
  stop : s.stopRequested = true ↔ s.flush = .done
  target : s.flush = .recorded ∨ s.flush = .done →
    ∃ w ≤ s.written, s.targetBinlogPosition = ShowMasterStatusBinlogPosition start log w
  returned : s.phase = .returned →
    s.stopRequested = true ∧ s.targetBinlogPosition ≤ s.lastStreamedBinlogPosition

namespace StreamInv

variable {b : BinlogStreamer ρ T D ε} {start : Position} {log : List (BinlogEvent ρ)}
  {s s' : StreamerState D}

theorem init (b : BinlogStreamer ρ T D ε) (start : Position) (log : List (BinlogEvent ρ)) :
    StreamInv b start log (StreamerState.init start) where
  written_le := Nat.zero_le _
  streamed_le := le_rfl
  position _ := rfl
  handed _ := rfl
  rows_ok _ m hm := absurd hm (Nat.not_lt_zero m)
  handed_lt _ hh := absurd hh List.not_mem_nil
  order _ := List.Pairwise.nil
  stop := by simp [StreamerState.init]
  target h := by simp [StreamerState.init] at h
  returned h := by simp [StreamerState.init] at h

theorem flush_done_of_returned (hinv : StreamInv b start log s) (hp : s.phase = .returned) :
    s.flush = .done :=
  hinv.stop.mp (hinv.returned hp).1

/-- A step of `Run` to another phase, from a phase of its loop, with the position and the calls
of the listeners unchanged. -/
theorem with_phase (hinv : StreamInv b start log s) (hl : s.phase.Live) {p : StreamerPhase}
    (hp : p = .returned →
      s.stopRequested = true ∧ s.targetBinlogPosition ≤ s.lastStreamedBinlogPosition) :
    StreamInv b start log { s with phase := p } :=
  { hinv with
    position := fun _ => hinv.position hl
    handed := fun _ => hinv.handed hl
    rows_ok := fun _ => hinv.rows_ok hl
    returned := hp }

theorem write (hinv : StreamInv b start log s) (h : streamerStep b start log s .write = some s') :
    StreamInv b start log s' := by
  obtain ⟨hw, rfl⟩ := streamerStep_write h
  exact { hinv with
    written_le := hw
    streamed_le := hinv.streamed_le.trans (Nat.le_succ _)
    target := fun hf => by
      obtain ⟨w, hw', ht⟩ := hinv.target hf
      exact ⟨w, Nat.le_succ_of_le hw', ht⟩ }

theorem recordTarget (hinv : StreamInv b start log s)
    (h : streamerStep b start log s .recordTarget = some s') : StreamInv b start log s' := by
  obtain ⟨hf, rfl⟩ := streamerStep_recordTarget h
  -- `Run` cannot have returned: no stop was requested yet
  have hnr : s.phase ≠ .returned := fun hp => by
    simp [hinv.flush_done_of_returned hp] at hf
  exact { hinv with
    stop := by simp [hinv.stop, hf]
    target := fun _ => ⟨s.written, le_rfl, rfl⟩
    returned := fun hp => absurd hp hnr }

theorem requestStop (hinv : StreamInv b start log s)
    (h : streamerStep b start log s .requestStop = some s') : StreamInv b start log s' := by
  obtain ⟨hf, rfl⟩ := streamerStep_requestStop h
  have hnr : s.phase ≠ .returned := fun hp => by
    simp [hinv.flush_done_of_returned hp] at hf
  exact { hinv with
    stop := iff_of_true rfl rfl
    target := fun _ => hinv.target (.inl hf)
    returned := fun hp => absurd hp hnr }

theorem flushFail (hinv : StreamInv b start log s)
    (h : streamerStep b start log s .flushFail = some s') : StreamInv b start log s' := by
  obtain ⟨hf, rfl⟩ := streamerStep_flushFail h
  have hnr : s.phase ≠ .returned := fun hp => by
    simp [hinv.flush_done_of_returned hp] at hf
  exact { hinv with
    stop := by simp [hinv.stop, hf]
    target := fun hf' => by simp at hf'
    returned := fun hp => absurd hp hnr }

theorem check (hinv : StreamInv b start log s) (h : streamerStep b start log s .check = some s') :
    StreamInv b start log s' := by
  obtain ⟨hc, ⟨-, rfl⟩ | ⟨hstop, hle, rfl⟩⟩ := streamerStep_check h
  · exact hinv.with_phase (.inl hc) nofun
  · exact hinv.with_phase (.inl hc) fun _ => ⟨hstop, hle⟩

theorem timeout (hinv : StreamInv b start log s)
    (h : streamerStep b start log s .timeout = some s') : StreamInv b start log s' := by
  obtain ⟨hp, rfl⟩ := streamerStep_timeout h
  exact hinv.with_phase (.inr (.inl hp)) nofun

theorem getEventFail (hinv : StreamInv b start log s)
    (h : streamerStep b start log s .getEventFail = some s') : StreamInv b start log s' := by
  obtain ⟨hp, rfl⟩ := streamerStep_getEventFail h
  exact hinv.with_phase (.inr (.inl hp)) nofun

/-- `Run` streams the next event: the position moves to where it ends and its listeners are
handed it, or `Run` ends in an error after handing it to some of them. -/
theorem next (hinv : StreamInv b start log s) {listenerErr : Option ℕ}
    (h : streamerStep b start log s (.next listenerErr) = some s') : StreamInv b start log s' := by
  obtain ⟨hp, hlt, ev, hev, hs⟩ := streamerStep_next h
  have hl : s.phase.Live := .inr (.inl hp)
  rcases streamEvent_eq_some hs with ⟨hrows, rfl⟩ | ⟨p, n, events, hp', rfl⟩
  · obtain ⟨n, events, hfor⟩ := handedFor_eq_range_map b ev s.streamed
    exact { hinv with
      streamed_le := hlt
      position := fun _ => by
        rw [binlogPosition_take_succ hev, ← hinv.position hl]
      handed := fun _ => by
        rw [handedUpTo_succ hev, ← hinv.handed hl]
      rows_ok := fun _ m hm ev' hev' => by
        rcases Nat.lt_succ_iff_lt_or_eq.mp hm with hm | rfl
        · exact hinv.rows_ok hl m hm ev' hev'
        · obtain rfl : ev' = ev := Option.some.inj (hev'.symm.trans hev)
          exact hrows
      handed_lt := fun h hh => lt_of_mem_append_range hinv.handed_lt (hfor ▸ hh)
      order := fun l => hfor ▸ pairwise_handedTo_append_range hinv.handed_lt hinv.order n events l
      returned := nofun }
  · -- a fatal error or a panic: `Run` has left its loop
    have hnl : ¬p.Live := by
      rcases hp' with rfl | rfl <;> simp [StreamerPhase.Live]
    exact { hinv with
      streamed_le := hlt
      position := fun hl' => absurd hl' hnl
      handed := fun hl' => absurd hl' hnl
      rows_ok := fun hl' => absurd hl' hnl
      handed_lt := fun h hh => lt_of_mem_append_range hinv.handed_lt hh
      order := pairwise_handedTo_append_range hinv.handed_lt hinv.order n events
      returned := fun hr => by rcases hp' with rfl | rfl <;> simp at hr }

theorem step (hinv : StreamInv b start log s) {a : StreamerAction}
    (h : streamerStep b start log s a = some s') : StreamInv b start log s' := by
  cases a with
  | write => exact hinv.write h
  | recordTarget => exact hinv.recordTarget h
  | requestStop => exact hinv.requestStop h
  | flushFail => exact hinv.flushFail h
  | check => exact hinv.check h
  | timeout => exact hinv.timeout h
  | getEventFail => exact hinv.getEventFail h
  | next listenerErr => exact hinv.next h

theorem of_reachable (hr : Reachable (streamerStep b start log) (StreamerState.init start) s) :
    StreamInv b start log s :=
  Reachable.invariant (StreamInv b start log) (init b start log)
    (fun _ _ _ hinv h => hinv.step h) hr

/-- Under the order, no step moves `Run` back in the binlog. -/
theorem last_le (hord : BinlogOrdered start log) (hinv : StreamInv b start log s)
    {a : StreamerAction} (h : streamerStep b start log s a = some s') :
    s.lastStreamedBinlogPosition ≤ s'.lastStreamedBinlogPosition := by
  cases a with
  | write =>
    obtain ⟨-, rfl⟩ := streamerStep_write h
    exact le_rfl
  | recordTarget =>
    obtain ⟨-, rfl⟩ := streamerStep_recordTarget h
    exact le_rfl
  | requestStop =>
    obtain ⟨-, rfl⟩ := streamerStep_requestStop h
    exact le_rfl
  | flushFail =>
    obtain ⟨-, rfl⟩ := streamerStep_flushFail h
    exact le_rfl
  | check =>
    obtain ⟨-, ⟨-, rfl⟩ | ⟨-, -, rfl⟩⟩ := streamerStep_check h <;> exact le_rfl
  | timeout =>
    obtain ⟨-, rfl⟩ := streamerStep_timeout h
    exact le_rfl
  | getEventFail =>
    obtain ⟨-, rfl⟩ := streamerStep_getEventFail h
    exact le_rfl
  | next listenerErr =>
    obtain ⟨hp, -, ev, hev, hs⟩ := streamerStep_next h
    rcases streamEvent_eq_some hs with ⟨-, rfl⟩ | ⟨p, n, events, -, rfl⟩
    · -- the event is streamed: `Run` moves to where it ends
      have hpos := hinv.position (.inr (.inl hp))
      calc s.lastStreamedBinlogPosition
          = binlogPosition start (log.take s.streamed) := hpos
        _ ≤ binlogPosition start (log.take (s.streamed + 1)) := binlogPosition_le_succ hord hev
        _ = nextPosition s.lastStreamedBinlogPosition ev := by
          rw [binlogPosition_take_succ hev, hpos]
    · exact le_rfl

/-- When `Run` has returned, a rows event that ends by the target is one it streamed: every
listener was handed it if its table is in the cache, and none otherwise. -/
theorem handed_of_returned (hord : BinlogOrdered start log) (hinv : StreamInv b start log s)
    (hp : s.phase = .returned) {m : ℕ} {ev : BinlogEvent ρ} {Schema Table : String} {Rows : ρ}
    (hm : log[m]? = some ev) (hev : ev.Event = .RowsEvent Schema Table Rows)
    (hle : binlogPosition start (log.take (m + 1)) ≤ s.targetBinlogPosition) :
    (b.TableSchema Schema Table = none → ∀ h ∈ s.handed, h.2.1 ≠ m) ∧
      (b.TableSchema Schema Table ≠ none → ∃ events,
        b.handleRowsEvent ev Schema Table = .ok (some events) ∧
        ∀ l < b.eventListeners, (l, m, events) ∈ s.handed) := by
  have hl : s.phase.Live := .inr (.inr hp)
  -- `Run` stopped at or after the target, so past the event
  have hstreamed : m < s.streamed := by
    refine lt_of_binlogPosition_le hord hm (by simp [BinlogEventData.HasPosition, hev]) ?_
    rw [← hinv.position hl]
    exact hle.trans (hinv.returned hp).2
  rw [hinv.handed hl]
  constructor
  · intro hts h hh hidx
    obtain ⟨m', -, ev', hev', hh'⟩ := mem_handedUpTo.mp hh
    -- the call was for the event `m` itself
    have hmm : m' = m := (index_of_mem_handedFor hh').symm.trans hidx
    rw [hmm, hm] at hev'
    obtain rfl := Option.some.inj hev'
    have hnone : b.handleRowsEvent ev Schema Table = .ok none := handleRowsEvent_ok_none_iff.mpr hts
    simp [handedFor, hev, hnone] at hh'
  · intro hts
    have hrows : b.RowsHandled ev := hinv.rows_ok hl m hstreamed ev hm
    simp only [BinlogStreamer.RowsHandled, hev] at hrows
    cases hx : b.handleRowsEvent ev Schema Table with
    | error e => exact absurd hx (hrows e)
    | ok x =>
      cases x with
      | none => exact absurd (handleRowsEvent_ok_none_iff.mp hx) hts
      | some events =>
        refine ⟨events, rfl, fun l hl => mem_handedUpTo.mpr ⟨m, hstreamed, ev, hm, ?_⟩⟩
        simp [handedFor, hev, hx, hl]

end StreamInv

/-- Over any binlog in order and any interleaving of `Run`, `FlushAndStop` and the source: the
position of `Run` never goes back; each listener is handed rows events in binlog order, each at
most once; and once `Run` has returned, `FlushAndStop` recorded a target where the binlog written
by then ended, and every rows event that ends by the target was handed, as its DML events that
pass the filter, to every listener if its table is in the cache, and to none otherwise. -/
theorem Run_hands_rows_events {b : BinlogStreamer ρ T D ε} {start : Position}
    {log : List (BinlogEvent ρ)} {s : StreamerState D} (hord : BinlogOrdered start log)
    (hr : Reachable (streamerStep b start log) (StreamerState.init start) s) :
    (∀ s', Reachable (streamerStep b start log) s s' →
      s.lastStreamedBinlogPosition ≤ s'.lastStreamedBinlogPosition) ∧
    (∀ l, (handedTo l s.handed).Pairwise (· < ·)) ∧
    (s.phase = .returned →
      s.flush = .done ∧
      (∃ w ≤ s.written, s.targetBinlogPosition = ShowMasterStatusBinlogPosition start log w) ∧
      ∀ m ev Schema Table Rows, log[m]? = some ev → ev.Event = .RowsEvent Schema Table Rows →
        binlogPosition start (log.take (m + 1)) ≤ s.targetBinlogPosition →
        (b.TableSchema Schema Table = none → ∀ h ∈ s.handed, h.2.1 ≠ m) ∧
        (b.TableSchema Schema Table ≠ none → ∃ events,
          b.handleRowsEvent ev Schema Table = .ok (some events) ∧
          ∀ l < b.eventListeners, (l, m, events) ∈ s.handed)) := by
  have hinv := StreamInv.of_reachable hr
  refine ⟨fun s' hs' => ?_, hinv.order, fun hp => ?_⟩
  · exact Reachable.le_of_inv (StreamInv b start log) (·.lastStreamedBinlogPosition)
      (fun _ _ _ hi h => hi.step h) (fun _ _ _ hi h => hi.last_le hord h) hinv hs'
  · have hdone := hinv.flush_done_of_returned hp
    exact ⟨hdone, hinv.target (.inr hdone),
      fun m ev Schema Table Rows hm hev hle => hinv.handed_of_returned hord hp hm hev hle⟩

/-- A format description, then a rows event on a table in the cache whose DML events `1`, `2`,
`3` the filter narrows to the odd ones; two listeners. -/
def filteredStreamer : BinlogStreamer Unit Unit ℕ Unit :=
  ⟨fun _ _ => some (), fun _ _ => .ok [1, 2, 3], some fun d => .ok (d % 2 = 1), 2⟩

def filteredLog : List (BinlogEvent Unit) :=
  [⟨1, 0, .FormatDescriptionEvent⟩, ⟨1, 200, .RowsEvent "db" "t" ()⟩]

def filteredRun : StreamerState ℕ :=
  runD (streamerStep filteredStreamer ⟨"bin.1", 100⟩ filteredLog)
    (StreamerState.init ⟨"bin.1", 100⟩)
    [.write, .write, .recordTarget, .requestStop, .check, .next none, .check, .next none, .check]

theorem filteredRun_handed :
    filteredRun.phase = .returned ∧
      (filteredStreamer.handleRowsEvent ⟨1, 200, .RowsEvent "db" "t" ()⟩ "db" "t" =
        .ok (some [1, 3])) ∧
      ∀ l < 2, (l, 1, [1, 3]) ∈ filteredRun.handed := by
  have hord : BinlogOrdered ⟨"bin.1", 100⟩ filteredLog := by
    unfold BinlogOrdered
    decide
  have hr : Reachable (streamerStep filteredStreamer ⟨"bin.1", 100⟩ filteredLog)
      (StreamerState.init ⟨"bin.1", 100⟩) filteredRun := Reachable.runD (by decide)
  have hp : filteredRun.phase = .returned := by decide
  obtain ⟨-, -, hret⟩ := Run_hands_rows_events hord hr
  obtain ⟨-, -, hrows⟩ := hret hp
  obtain ⟨events, hok, hall⟩ :=
    (hrows 1 ⟨1, 200, .RowsEvent "db" "t" ()⟩ "db" "t" () rfl rfl (by decide)).2 (by decide)
  have hevents : events = [1, 3] := by
    have hok' : filteredStreamer.handleRowsEvent ⟨1, 200, .RowsEvent "db" "t" ()⟩ "db" "t" =
        .ok (some [1, 3]) := by decide
    rw [hok'] at hok
    injection hok with hok
    exact (Option.some.inj hok).symm
  subst hevents
  exact ⟨hp, hok, hall⟩

/-- One rows event, ending at `200` of `bin.1`, on a table that is not in the cache; one
listener. -/
def uncachedStreamer : BinlogStreamer Unit Unit Unit Unit :=
  ⟨fun _ _ => none, fun _ _ => .ok [()], none, 1⟩

def uncachedLog : List (BinlogEvent Unit) := [⟨1, 200, .RowsEvent "db" "t" ()⟩]

/-- The source writes the event, `FlushAndStop` takes where it ends as the target, and `Run`
streams it and stops there. -/
def uncachedRun : StreamerState Unit :=
  runD (streamerStep uncachedStreamer ⟨"bin.1", 100⟩ uncachedLog)
    (StreamerState.init ⟨"bin.1", 100⟩)
    [.write, .recordTarget, .requestStop, .check, .next none, .check]

theorem uncached_rows_event_not_handed :
    BinlogOrdered ⟨"bin.1", 100⟩ uncachedLog ∧
      Reachable (streamerStep uncachedStreamer ⟨"bin.1", 100⟩ uncachedLog)
        (StreamerState.init ⟨"bin.1", 100⟩) uncachedRun ∧
      uncachedRun.phase = .returned ∧
      binlogPosition ⟨"bin.1", 100⟩ (uncachedLog.take 1) ≤ uncachedRun.targetBinlogPosition ∧
      uncachedRun.handed = [] := by
  refine ⟨?_, Reachable.runD (by decide), by decide, by decide, by decide⟩
  unfold BinlogOrdered
  decide

end Ghostferry
