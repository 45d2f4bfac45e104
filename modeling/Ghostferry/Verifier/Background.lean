import Ghostferry.Verifier.VerifyStore
import Ghostferry.Lib.WaitGroup
import Ghostferry.Lib.Machine

/-!
# Verification in the background

A `Verifier` of `verifier.go` runs in the background: `StartInBackground` starts a goroutine that
verifies and writes the result, `Wait` waits for it through a `sync.WaitGroup`, and `Result` reads
the result and its status. The control server's `HandleVerify` calls `StartInBackground` for each
`POST /api/actions/verify`, at any time.

`IterativeVerifier.StartInBackground` of `iterative_verifier.go` makes a new wait group, adds one
to it, and starts a goroutine that defers two calls: `v.backgroundVerificationWg.Done()`, whose
pointer is taken when the `defer` runs, and a closure that sets `backgroundDoneTime` and calls
`v.backgroundVerificationWg.Done()`, whose pointer is taken when the closure runs. Every goroutine
makes two `Done` calls for its one `Add`. `verifyDuringCutoverStarted`, which refuses a second
`StartInBackground`, is set only once a goroutine has begun `VerifyDuringCutover`, so calls may
start several goroutines. Over every interleaving of them, the counters of the wait groups plus the
number of goroutines are the `Done` calls still to come (`IterativeBackground.Inv`): once every
goroutine had returned they would sum below zero. So a started background verification can only go
on or end in the panic `sync: negative WaitGroup counter` (`IterativeVerifier_background_panics`).

The result a verification writes is any pair of a `VerificationResult` and an error: the model of
`Verify` and `verifyStore` is elsewhere (`Checksum.lean`, `VerifyStore.lean`). A time is `none`
when it is zero, and an action that reads the clock carries the time it reads.
-/

namespace Ghostferry

open Machine

/-- `VerificationResultAndStatus`. -/
structure VerificationResultAndStatus where
  VerificationResult : VerificationResult
  StartTime : Option ℤ
  DoneTime : Option ℤ
  deriving DecidableEq, Repr

def VerificationResultAndStatus.IsStarted (r : VerificationResultAndStatus) : Bool :=
  r.StartTime.isSome

def VerificationResultAndStatus.IsDone (r : VerificationResultAndStatus) : Bool :=
  r.DoneTime.isSome

/-- `VerificationResultAndStatus{StartTime: time.Now(), DoneTime: time.Time{}}` at `now`. -/
def VerificationResultAndStatus.started (now : ℤ) : VerificationResultAndStatus :=
  ⟨⟨false, ""⟩, some now, none⟩

/-- A step of background verifications. -/
inductive BackgroundAction where
  /-- A call of `StartInBackground` at the time `now`, such as `HandleVerify` makes. -/
  | StartInBackground (now : ℤ)
  /-- The goroutine `i` runs its next statement at the time `now`. -/
  | run (i : ℕ) (now : ℤ)
  /-- The verification of the goroutine `i` returns `result` and `err` at the time `now`. -/
  | verified (i : ℕ) (now : ℤ) (result : VerificationResult) (err : Option String)
  /-- A call of `Wait` returns. -/
  | Wait
  deriving DecidableEq, Repr

/-- The goroutine an action runs. -/
def BackgroundAction.goroutine : BackgroundAction → Option ℕ
  | .run i _ => some i
  | .verified i .. => some i
  | _ => none

/-! ## `IterativeVerifier` -/

/-- Where a goroutine of `IterativeVerifier.StartInBackground` is; `bound` is the pointer its first
`defer` took. -/
inductive IterativeGoroutine where
  /-- Started, before its first statement. -/
  | spawned
  /-- `defer v.backgroundVerificationWg.Done()` has run. -/
  | deferred (bound : Option ℕ)
  /-- In `VerifyDuringCutover`, after `verifyDuringCutoverStarted.Set(true)`. -/
  | verifying (bound : Option ℕ)
  /-- The result and `DoneTime` are written; the deferred calls are next. -/
  | verified (bound : Option ℕ)
  /-- The deferred closure has returned. -/
  | closed (bound : Option ℕ)
  /-- The deferred `Done` through `bound` has returned, and so has the goroutine. -/
  | exited
  deriving DecidableEq, Repr

/-- The `Done` calls the goroutine has still to make. -/
def IterativeGoroutine.pendingDone : IterativeGoroutine → ℕ
  | .closed _ => 1
  | .exited => 0
  | _ => 2

/-- The pointer the goroutine's first `defer` took, once it has run. -/
def IterativeGoroutine.bound : IterativeGoroutine → Option (Option ℕ)
  | .deferred b | .verifying b | .verified b | .closed b => some b
  | _ => none

/-- The fields of an `IterativeVerifier` that its background verification reads and writes. -/
structure IterativeBackground where
  /-- `logger` is set: `Initialize` has run. -/
  initialized : Bool
  beforeCutoverVerifyDone : Bool
  verifyDuringCutoverStarted : Bool
  verificationResultAndStatus : VerificationResultAndStatus
  verificationErr : Option String
  backgroundDoneTime : Option ℤ
  /-- The wait groups made so far. -/
  wgs : WaitGroup.Heap
  backgroundVerificationWg : Option ℕ
  goroutines : List IterativeGoroutine
  /-- The panic that ended the program. -/
  panicked : Option String
  deriving DecidableEq, Repr

namespace IterativeBackground

/-- The verifier before any `StartInBackground`: `initialized` once `Initialize` has run, and
`beforeCutoverVerifyDone` once `VerifyBeforeCutover` has. -/
def init (initialized beforeCutoverVerifyDone : Bool) : IterativeBackground where
  initialized := initialized
  beforeCutoverVerifyDone := beforeCutoverVerifyDone
  verifyDuringCutoverStarted := false
  verificationResultAndStatus := ⟨⟨false, ""⟩, none, none⟩
  verificationErr := none
  backgroundDoneTime := none
  wgs := []
  backgroundVerificationWg := none
  goroutines := []
  panicked := none

variable (v : IterativeBackground)

/-- `StartInBackground` at the time `now`: its error, or the verifier with a new goroutine. -/
def StartInBackground (now : ℤ) : Except String IterativeBackground :=
  if !v.initialized then .error "Initialize() must be called before this"
  else if !v.beforeCutoverVerifyDone then .error "VerifyBeforeCutover() must be called before this"
  else if v.verifyDuringCutoverStarted then
    .error "verification during cutover has already been started"
  else
    let made := WaitGroup.new v.wgs
    let v' := { v with
      verificationResultAndStatus := .started now
      verificationErr := none
      backgroundVerificationWg := made.2 }
    match WaitGroup.Add made.1 made.2 1 with
    | .error e => .ok { v' with wgs := made.1, panicked := some e }
    | .ok wgs => .ok { v' with wgs := wgs, goroutines := v.goroutines ++ [.spawned] }

/-- The goroutine `i` moved to `g`. -/
def setGoroutine (i : ℕ) (g : IterativeGoroutine) : IterativeBackground :=
  { v with goroutines := v.goroutines.set i g }

/-- A `Done` of the goroutine `i` through `wg`, after which it is at `g`, or the panic of `Done`. -/
def done (i : ℕ) (wg : Option ℕ) (g : IterativeGoroutine) : IterativeBackground :=
  match WaitGroup.Done v.wgs wg with
  | .error e => { v with panicked := some e }
  | .ok wgs => { v.setGoroutine i g with wgs := wgs }

/-- The next statement of the goroutine `i`, at the time `now`; `none` when it waits for
`verifyStore` or has returned. -/
def run (i : ℕ) (now : ℤ) : Option IterativeBackground :=
  match v.goroutines[i]? with
  | some .spawned => some (v.setGoroutine i (.deferred v.backgroundVerificationWg))
  | some (.deferred bound) =>
    -- `VerifyDuringCutover` sets the flag, then calls `verifyStore`
    some { v.setGoroutine i (.verifying bound) with verifyDuringCutoverStarted := true }
  | some (.verified bound) =>
    -- the deferred closure, which takes the pointer now
    some (({ v with backgroundDoneTime := some now } : IterativeBackground).done i
      v.backgroundVerificationWg (.closed bound))
  | some (.closed bound) => some (v.done i bound .exited)
  | _ => none

/-- `verifyStore` of the goroutine `i` returns `result` and `err` at the time `now`, which the
goroutine writes with `DoneTime`. -/
def verifyStoreReturns (i : ℕ) (now : ℤ) (result : VerificationResult) (err : Option String) :
    Option IterativeBackground :=
  match v.goroutines[i]? with
  | some (.verifying bound) =>
    some { v.setGoroutine i (.verified bound) with
      verificationResultAndStatus :=
        { v.verificationResultAndStatus with VerificationResult := result, DoneTime := some now }
      verificationErr := err }
  | _ => none

/-- `Wait`: it panics on a `nil` wait group, and returns once the counter is zero. -/
def Wait : Option IterativeBackground :=
  match v.backgroundVerificationWg with
  | none => some { v with panicked := some WaitGroup.nilPointer }
  | some _ => if WaitGroup.Returns v.wgs v.backgroundVerificationWg then some v else none

end IterativeBackground

/-- A step of the background verifications of an `IterativeVerifier`; none after a panic. -/
def iterativeBackgroundStep (v : IterativeBackground) (a : BackgroundAction) :
    Option IterativeBackground :=
  if v.panicked.isSome then none
  else
    match a with
    | .StartInBackground now =>
      -- a call that returns an error changes nothing
      match v.StartInBackground now with
      | .ok v' => some v'
      | .error _ => some v
    | .run i now => v.run i now
    | .verified i now result err => v.verifyStoreReturns i now result err
    | .Wait => v.Wait

namespace IterativeBackground

variable {v v' : IterativeBackground}

/-- What a step can do: a call of `StartInBackground`, which changes nothing when it returns an
error, a statement of a goroutine, or a `Wait` that returns; never after a panic. -/
theorem iterativeBackgroundStep_cases {a : BackgroundAction}
    (h : iterativeBackgroundStep v a = some v') :
    v.panicked = none ∧
      ((∃ now, v.StartInBackground now = .ok v') ∨ v' = v ∨
        (∃ i now, v.run i now = some v') ∨
        (∃ i now result err, v.verifyStoreReturns i now result err = some v') ∨ v.Wait = some v') := by
  unfold iterativeBackgroundStep at h
  split_ifs at h with hp
  refine ⟨Option.not_isSome_iff_eq_none.mp hp, ?_⟩
  cases a with
  | StartInBackground now =>
    dsimp only at h
    split at h
    · rename_i hstart
      cases h
      exact .inl ⟨now, hstart⟩
    · cases h
      exact .inr (.inl rfl)
  | run i now => exact .inr (.inr (.inl ⟨i, now, h⟩))
  | verified i now result err => exact .inr (.inr (.inr (.inl ⟨i, now, result, err, h⟩)))
  | Wait => exact .inr (.inr (.inr (.inr h)))

/-- The invariant of the background verifications: while nothing has panicked no counter is below
zero, and the counters plus the goroutines are the `Done` calls still to come. -/
structure Inv (v : IterativeBackground) : Prop where
  nonneg : v.panicked = none → ∀ c ∈ v.wgs, 0 ≤ c
  sum_eq : v.wgs.sum + v.goroutines.length =
    ((v.goroutines.map IterativeGoroutine.pendingDone).sum : ℤ)
  wg_valid : v.goroutines ≠ [] → WaitGroup.Valid v.wgs v.backgroundVerificationWg
  bound_valid : ∀ g ∈ v.goroutines, ∀ b ∈ g.bound, WaitGroup.Valid v.wgs b
  panic : v.goroutines ≠ [] → ∀ e, v.panicked = some e → e = WaitGroup.negativeCounter

theorem inv_init (initialized beforeCutoverVerifyDone : Bool) :
    Inv (init initialized beforeCutoverVerifyDone) where
  nonneg := by simp [init]
  sum_eq := by simp [init]
  wg_valid := by simp [init]
  bound_valid := by simp [init]
  panic := by simp [init]

/-- The invariant reads only the wait groups, the pointer to the current one, the goroutines and
the panic. -/
theorem Inv.of_eq {w : IterativeBackground} (hinv : Inv v) (hwgs : w.wgs = v.wgs)
    (hwg : w.backgroundVerificationWg = v.backgroundVerificationWg)
    (hg : w.goroutines = v.goroutines) (hp : w.panicked = v.panicked) : Inv w := by
  obtain ⟨nonneg, sum_eq, wg_valid, bound_valid, panic⟩ := hinv
  rw [← hwgs, ← hwg, ← hg, ← hp] at *
  exact ⟨nonneg, sum_eq, wg_valid, bound_valid, panic⟩

/-- A goroutine that moves without a `Done` keeps the invariant. -/
theorem Inv.setGoroutine (hinv : Inv v) {i : ℕ} {g g' : IterativeGoroutine}
    (hi : v.goroutines[i]? = some g) (hpending : g'.pendingDone = g.pendingDone)
    (hbound : ∀ b ∈ g'.bound, WaitGroup.Valid v.wgs b) : Inv (v.setGoroutine i g') where
  nonneg := hinv.nonneg
  sum_eq := by
    have hsum := sum_map_set IterativeGoroutine.pendingDone hi g'
    simp only [IterativeBackground.setGoroutine, List.length_set]
    rw [hinv.sum_eq]
    have hcast : (((v.goroutines.set i g').map IterativeGoroutine.pendingDone).sum : ℤ) +
        g.pendingDone = ((v.goroutines.map IterativeGoroutine.pendingDone).sum : ℤ) +
          g'.pendingDone := by
      exact_mod_cast hsum
    push_cast at hcast ⊢
    omega
  wg_valid := fun hne => hinv.wg_valid (by simpa [IterativeBackground.setGoroutine] using hne)
  bound_valid := by
    intro g'' hg''
    rcases List.mem_or_eq_of_mem_set hg'' with hmem | rfl
    · exact hinv.bound_valid g'' hmem
    · exact hbound
  panic := fun hne => hinv.panic (by simpa [IterativeBackground.setGoroutine] using hne)

/-- A goroutine that calls `Done` through a pointer to a wait group that was made either panics
with `negativeCounter` or gives up one of its `Done` calls; both keep the invariant. -/
theorem Inv.done (hinv : Inv v) (hp : v.panicked = none) {i : ℕ} {g g' : IterativeGoroutine}
    (hi : v.goroutines[i]? = some g) {wg : Option ℕ} (hwg : WaitGroup.Valid v.wgs wg)
    (hpending : g'.pendingDone + 1 = g.pendingDone)
    (hbound : ∀ b ∈ g'.bound, WaitGroup.Valid v.wgs b) : Inv (v.done i wg g') := by
  unfold IterativeBackground.done
  cases hd : WaitGroup.Done v.wgs wg with
  | error e =>
    -- the panic: only the counter's
    have he : e = WaitGroup.negativeCounter := WaitGroup.Add_eq_error hwg hd
    dsimp only
    refine ⟨fun h => (by cases h), hinv.sum_eq, hinv.wg_valid, hinv.bound_valid, ?_⟩
    intro _ e' he'
    cases he'
    exact he
  | ok wgs =>
    have hsum := WaitGroup.sum_Add hd
    have hset := sum_map_set IterativeGoroutine.pendingDone hi g'
    dsimp only
    refine ⟨fun _ => WaitGroup.Add_nonneg (hinv.nonneg hp) hd, ?_, ?_, ?_, ?_⟩
    · simp only [IterativeBackground.setGoroutine, List.length_set]
      rw [hsum]
      have hcast : (((v.goroutines.set i g').map IterativeGoroutine.pendingDone).sum : ℤ) +
          g.pendingDone = ((v.goroutines.map IterativeGoroutine.pendingDone).sum : ℤ) +
            g'.pendingDone := by
        exact_mod_cast hset
      have heq := hinv.sum_eq
      push_cast at hcast heq ⊢
      omega
    · intro hne
      exact WaitGroup.Valid.of_Add
        (hinv.wg_valid (by simpa [IterativeBackground.setGoroutine] using hne)) hd
    · intro g'' hg'' b hb
      rcases List.mem_or_eq_of_mem_set hg'' with hmem | rfl
      · exact WaitGroup.Valid.of_Add (hinv.bound_valid g'' hmem b hb) hd
      · exact WaitGroup.Valid.of_Add (hbound b hb) hd
    · intro _ e he
      have hpe : v.panicked = some e := he
      rw [hp] at hpe
      cases hpe

theorem Inv.StartInBackground (hinv : Inv v) (hp : v.panicked = none) {now : ℤ}
    (h : v.StartInBackground now = .ok v') : Inv v' := by
  unfold IterativeBackground.StartInBackground at h
  split_ifs at h
  -- `Add(1)` on the new wait group succeeds
  simp only [WaitGroup.Add_new_one, Except.ok.injEq] at h
  subst h
  refine ⟨fun _ c hc => ?_, ?_, fun _ => ⟨v.wgs.length, rfl, by simp⟩, ?_, fun _ e he => ?_⟩
  · rcases List.mem_append.mp hc with hc | hc
    · exact hinv.nonneg hp c hc
    · rw [List.mem_singleton.mp hc]
      decide
  · have heq := hinv.sum_eq
    simp only [List.sum_append, List.length_append, List.map_append, List.sum_cons, List.sum_nil,
      List.map_cons, List.map_nil, List.length_singleton]
    push_cast at heq ⊢
    simp only [IterativeGoroutine.pendingDone]
    omega
  · intro g hg b hb
    rcases List.mem_append.mp hg with hg | hg
    · exact WaitGroup.Valid.append (hinv.bound_valid g hg b hb) [1]
    · rw [List.mem_singleton.mp hg] at hb
      cases hb
  · have hpe : v.panicked = some e := he
    rw [hp] at hpe
    cases hpe

theorem Inv.run (hinv : Inv v) (hp : v.panicked = none) {i : ℕ} {now : ℤ}
    (h : v.run i now = some v') : Inv v' := by
  unfold IterativeBackground.run at h
  split at h
  · -- `defer` takes the current pointer
    rename_i hi
    cases h
    refine hinv.setGoroutine hi rfl fun b hb => ?_
    cases hb
    exact hinv.wg_valid (List.ne_nil_of_mem (List.mem_of_getElem? hi))
  · rename_i bound hi
    cases h
    have hset : Inv (v.setGoroutine i (.verifying bound)) :=
      hinv.setGoroutine hi rfl fun b hb => hinv.bound_valid _ (List.mem_of_getElem? hi) b hb
    exact hset.of_eq rfl rfl rfl rfl
  · -- the closure's `Done`, through the current pointer
    rename_i bound hi
    cases h
    have hinv' : Inv { v with backgroundDoneTime := some now } := hinv.of_eq rfl rfl rfl rfl
    exact hinv'.done hp hi (hinv.wg_valid (List.ne_nil_of_mem (List.mem_of_getElem? hi))) rfl
      fun b hb => hinv.bound_valid _ (List.mem_of_getElem? hi) b hb
  · -- the deferred `Done`, through the pointer the `defer` took
    rename_i bound hi
    cases h
    exact hinv.done hp hi (hinv.bound_valid _ (List.mem_of_getElem? hi) bound rfl) rfl
      fun b hb => (by cases hb)
  · cases h

theorem Inv.verifyStoreReturns (hinv : Inv v) {i : ℕ} {now : ℤ} {result : VerificationResult}
    {err : Option String} (h : v.verifyStoreReturns i now result err = some v') : Inv v' := by
  unfold IterativeBackground.verifyStoreReturns at h
  split at h
  · rename_i bound hi
    cases h
    have hset : Inv (v.setGoroutine i (.verified bound)) :=
      hinv.setGoroutine hi rfl fun b hb => hinv.bound_valid _ (List.mem_of_getElem? hi) b hb
    exact hset.of_eq rfl rfl rfl rfl
  · cases h

theorem Inv.Wait (hinv : Inv v) (h : v.Wait = some v') : Inv v' := by
  unfold IterativeBackground.Wait at h
  split at h
  · -- the panic of a `nil` wait group, before any goroutine
    rename_i hnil
    cases h
    refine ⟨fun h => (by cases h), hinv.sum_eq, hinv.wg_valid, hinv.bound_valid, ?_⟩
    intro hne
    obtain ⟨i, hi, -⟩ := hinv.wg_valid hne
    rw [hnil] at hi
    cases hi
  · split_ifs at h
    cases h
    exact hinv

theorem Inv.step (hinv : Inv v) {a : BackgroundAction} (h : iterativeBackgroundStep v a = some v') :
    Inv v' := by
  obtain ⟨hp, ⟨now, hstart⟩ | rfl | ⟨i, now, hrun⟩ | ⟨i, now, result, err, hret⟩ | hwait⟩ :=
    iterativeBackgroundStep_cases h
  · exact hinv.StartInBackground hp hstart
  · exact hinv
  · exact hinv.run hp hrun
  · exact hinv.verifyStoreReturns hret
  · exact hinv.Wait hwait

theorem Inv.of_reachable {initialized beforeCutoverVerifyDone : Bool}
    (hr : Reachable iterativeBackgroundStep (init initialized beforeCutoverVerifyDone) v) :
    Inv v :=
  Reachable.invariant Inv (inv_init _ _) (fun _ _ _ hs h => hs.step h) hr

/-- A goroutine that has not returned can take its next step while nothing has panicked. -/
theorem step_isSome_of_ne_exited (hp : v.panicked = none) {i : ℕ} {g : IterativeGoroutine}
    (hi : v.goroutines[i]? = some g) (hg : g ≠ .exited) :
    ∃ a, a.goroutine = some i ∧ (iterativeBackgroundStep v a).isSome := by
  cases g with
  | verifying bound =>
    exact ⟨.verified i 0 ⟨true, ""⟩ none, rfl, by
      simp [iterativeBackgroundStep, hp, IterativeBackground.verifyStoreReturns, hi]⟩
  | exited => exact absurd rfl hg
  | _ => exact ⟨.run i 0, rfl, by simp [iterativeBackgroundStep, hp, IterativeBackground.run, hi]⟩

/-- Once `StartInBackground` has started a goroutine, in every state that a run reaches, whatever
the interleaving, either a started goroutine can still take a step or the program has panicked with
`sync: negative WaitGroup counter`: no background verification ends without that panic. -/
theorem IterativeVerifier_background_panics {initialized beforeCutoverVerifyDone : Bool}
    (hr : Reachable iterativeBackgroundStep (init initialized beforeCutoverVerifyDone) v)
    (hg : v.goroutines ≠ []) :
    (∃ a i, a.goroutine = some i ∧ (iterativeBackgroundStep v a).isSome) ∨
      v.panicked = some WaitGroup.negativeCounter := by
  have hinv := Inv.of_reachable hr
  cases hp : v.panicked with
  | some e => exact .inr (congrArg some (hinv.panic hg e hp))
  | none =>
    -- some goroutine has not returned: had all returned, the counters would sum below zero
    have hlive : ∃ (i : ℕ) (g : IterativeGoroutine), v.goroutines[i]? = some g ∧ g ≠ .exited := by
      by_contra hall
      simp only [not_exists, not_and, not_not] at hall
      have hzero : (v.goroutines.map IterativeGoroutine.pendingDone).sum = 0 := by
        apply List.sum_eq_zero
        intro n hn
        obtain ⟨g, hg', rfl⟩ := List.mem_map.mp hn
        obtain ⟨i, hi⟩ := List.mem_iff_getElem?.mp hg'
        rw [hall i g hi]
        rfl
      have hsum := hinv.sum_eq
      have hnonneg : 0 ≤ v.wgs.sum := List.sum_nonneg (hinv.nonneg hp)
      have hlen : 0 < v.goroutines.length := List.length_pos_iff.mpr hg
      rw [hzero] at hsum
      omega
    obtain ⟨i, g, hi, hne⟩ := hlive
    obtain ⟨a, ha, hstep⟩ := step_isSome_of_ne_exited hp hi hne
    exact .inl ⟨a, i, ha, hstep⟩

/-- One `StartInBackground` whose goroutine runs to its deferred calls: the closure's `Done` takes
the counter to zero, and the deferred `Done` below it. -/
def panicRun : List BackgroundAction :=
  [.StartInBackground 1, .run 0 2, .run 0 3, .verified 0 4 ⟨true, ""⟩ none, .run 0 5, .run 0 6]

theorem panicRun_panics :
    ((∃ a i, a.goroutine = some i ∧
        (iterativeBackgroundStep (runD iterativeBackgroundStep (init true true) panicRun) a).isSome) ∨
      (runD iterativeBackgroundStep (init true true) panicRun).panicked =
        some WaitGroup.negativeCounter) ∧
      (runD iterativeBackgroundStep (init true true) panicRun).panicked =
        some WaitGroup.negativeCounter :=
  ⟨IterativeVerifier_background_panics (Reachable.runD (by decide)) (by decide), by decide⟩

end IterativeBackground

end Ghostferry
