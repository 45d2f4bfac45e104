import Mathlib.Data.List.Basic

/-!
# Compare-and-set replay

`cas o n x` is a conditional write: it leaves `n` when the current value `x` is the expected
value `o`, and leaves `x` unchanged otherwise. The history of one location is a chain of writes
from a start value, each expecting what the previous one left (`Chain`), through the values
`values v ws`, ending at `final v ws`.

The result this module exists for is `replay_of_mem`: replaying a whole chain from any of its
values ends at its last value. A location that runs ahead of the replay waits, unchanged, until
the replay reaches the value it holds, and then follows the chain in step with it. One step of
that argument is `cas_mem_values`, which the run proofs use write by write. `replayAll_apply`
projects a replay of keyed writes on a map to the writes of one key, and
`replayAll_replayAll_of_isPrefix` is the consequence for a batch written twice: replaying a prefix
and then the whole batch ends where one replay ends.
-/

namespace Cas

variable {α κ : Type*}

/-! ## Chains of writes -/

/-- The values a location takes from `v` through the writes `ws`: `v`, then each written value. -/
def values (v : α) (ws : List (α × α)) : List α := v :: ws.map Prod.snd

/-- `ws` is a chain from `v`: every write expects the value that the one before it left. -/
def Chain : α → List (α × α) → Prop
  | _, [] => True
  | v, w :: ws => w.1 = v ∧ Chain w.2 ws

/-- The value a chain from `v` ends at. -/
def final (v : α) : List (α × α) → α
  | [] => v
  | w :: ws => final w.2 ws

@[simp]
theorem values_nil (v : α) : values v [] = [v] := rfl

@[simp]
theorem values_cons (v : α) (w : α × α) (ws : List (α × α)) :
    values v (w :: ws) = v :: values w.2 ws := rfl

@[simp]
theorem chain_nil (v : α) : Chain v [] := trivial

@[simp]
theorem chain_cons (v : α) (w : α × α) (ws : List (α × α)) :
    Chain v (w :: ws) ↔ w.1 = v ∧ Chain w.2 ws := Iff.rfl

@[simp]
theorem final_nil (v : α) : final v [] = v := rfl

@[simp]
theorem final_cons (v : α) (w : α × α) (ws : List (α × α)) : final v (w :: ws) = final w.2 ws :=
  rfl

theorem values_append (v : α) (ws ws' : List (α × α)) :
    values v (ws ++ ws') = values v ws ++ ws'.map Prod.snd := by
  simp [values]

theorem mem_values_append {v x : α} {ws : List (α × α)} (ws' : List (α × α))
    (h : x ∈ values v ws) : x ∈ values v (ws ++ ws') := by
  rw [values_append]
  exact List.mem_append_left _ h

theorem chain_append {v : α} {ws ws' : List (α × α)} :
    Chain v (ws ++ ws') ↔ Chain v ws ∧ Chain (final v ws) ws' := by
  induction ws generalizing v with
  | nil => simp
  | cons w ws ih => simp [ih, and_assoc]

theorem final_append (v : α) (ws ws' : List (α × α)) :
    final v (ws ++ ws') = final (final v ws) ws' := by
  induction ws generalizing v with
  | nil => rfl
  | cons w ws ih => exact ih w.2

@[simp]
theorem final_mem_values (v : α) (ws : List (α × α)) : final v ws ∈ values v ws := by
  induction ws generalizing v with
  | nil => simp
  | cons w ws ih => exact List.mem_cons_of_mem _ (ih w.2)

/-- A chain whose writes all expect a value (`some`) and which ends at a value never passed
through `none`: a write from `none` is the only way back from it. -/
theorem values_isSome {β : Type*} {v : Option β} {ws : List (Option β × Option β)}
    (hc : Chain v ws) (hold : ∀ w ∈ ws, w.1.isSome) (hfin : (final v ws).isSome) :
    ∀ x ∈ values v ws, x.isSome := by
  induction ws generalizing v with
  | nil =>
    intro x hx
    rw [values_nil, List.mem_singleton] at hx
    rw [hx]
    exact hfin
  | cons w ws ih =>
    rw [chain_cons] at hc
    intro x hx
    rw [values_cons, List.mem_cons] at hx
    rcases hx with rfl | hx
    · rw [← hc.1]
      exact hold w List.mem_cons_self
    · exact ih hc.2 (fun w' hw' => hold w' (List.mem_cons_of_mem _ hw')) hfin x hx

/-- Writes that each expect what the write before them left are a chain from the value the first
one expects. -/
theorem chain_of_isChain {v : α} {ws : List (α × α)} (hhead : ∀ w ∈ ws.head?, w.1 = v)
    (hc : ws.IsChain fun w w' => w'.1 = w.2) : Chain v ws := by
  induction ws generalizing v with
  | nil => trivial
  | cons w ws ih =>
    refine ⟨hhead w rfl, ih (fun w' hw' => ?_) hc.of_cons⟩
    -- the next write expects what `w` left
    cases ws with
    | nil => cases hw'
    | cons w'' ws =>
      obtain rfl := Option.some.inj hw'
      exact (List.isChain_cons_cons.mp hc).1

/-! ## Keyed writes -/

section Keyed

variable [DecidableEq κ]

/-- The writes of one key, in order. -/
def writesOf (ws : List (κ × α × α)) (k : κ) : List (α × α) :=
  (ws.filter (fun w => w.1 = k)).map Prod.snd

@[simp]
theorem writesOf_nil (k : κ) : writesOf ([] : List (κ × α × α)) k = [] := rfl

theorem writesOf_append (ws ws' : List (κ × α × α)) (k : κ) :
    writesOf (ws ++ ws') k = writesOf ws k ++ writesOf ws' k := by
  simp [writesOf, List.filter_append]

theorem writesOf_cons_self (w : κ × α × α) (ws : List (κ × α × α)) :
    writesOf (w :: ws) w.1 = w.2 :: writesOf ws w.1 := by
  simp [writesOf]

theorem writesOf_isPrefix {ws₁ ws : List (κ × α × α)} (h : ws₁ <+: ws) (k : κ) :
    writesOf ws₁ k <+: writesOf ws k :=
  (h.filter _).map _

theorem writesOf_cons_of_ne {w : κ × α × α} (ws : List (κ × α × α)) {k : κ} (h : w.1 ≠ k) :
    writesOf (w :: ws) k = writesOf ws k := by
  simp [writesOf, h]

end Keyed

/-! ## Conditional writes -/

section Replay

variable [DecidableEq α]

/-- The conditional write: `n` where the location holds `o`, and no change elsewhere. -/
def cas (o n x : α) : α := if x = o then n else x

/-- The writes `ws` applied in order, each as a conditional write. -/
def replay (ws : List (α × α)) (x : α) : α := ws.foldl (fun x w => cas w.1 w.2 x) x

@[simp]
theorem cas_self (o n : α) : cas o n o = n := if_pos rfl

theorem cas_of_ne {o n x : α} (h : x ≠ o) : cas o n x = x := if_neg h

@[simp]
theorem replay_nil (x : α) : replay [] x = x := rfl

@[simp]
theorem replay_cons (w : α × α) (ws : List (α × α)) (x : α) :
    replay (w :: ws) x = replay ws (cas w.1 w.2 x) := rfl

/-- One write of a chain: a location holding one of the chain's values from the current one on
holds one of them from the next one on after the write. -/
theorem cas_mem_values {v x : α} {w : α × α} {ws : List (α × α)} (hc : Chain v (w :: ws))
    (hx : x ∈ values v (w :: ws)) : cas w.1 w.2 x ∈ values w.2 ws := by
  rw [chain_cons] at hc
  rw [values_cons, List.mem_cons] at hx
  by_cases hxo : x = w.1
  · rw [hxo, cas_self]
    exact List.mem_cons_self
  · rw [cas_of_ne hxo]
    rcases hx with rfl | hx
    · exact absurd hc.1.symm hxo
    · exact hx

/-- Replaying a chain from any of its values ends at its last value. -/
theorem replay_of_mem {v x : α} {ws : List (α × α)} (hc : Chain v ws) (hx : x ∈ values v ws) :
    replay ws x = final v ws := by
  induction ws generalizing v x with
  | nil =>
    rw [values_nil, List.mem_singleton] at hx
    rw [hx]
    rfl
  | cons w ws ih =>
    rw [replay_cons, final_cons]
    exact ih ((chain_cons v w ws).mp hc).2 (cas_mem_values hc hx)

/-- Replaying a whole chain after a prefix of it leaves what replaying it once leaves: the prefix
takes the location to one of the chain's values, and from there the whole replay waits and then
follows the chain. -/
theorem replay_replay_of_isPrefix {v : α} {ws ws₁ : List (α × α)} (hc : Chain v ws)
    (hp : ws₁ <+: ws) : replay ws (replay ws₁ v) = replay ws v := by
  obtain ⟨ws₂, rfl⟩ := hp
  have hc₁ : Chain v ws₁ := (chain_append.mp hc).1
  have hstart : v ∈ values v ws₁ := List.mem_cons_self
  rw [replay_of_mem hc₁ hstart, replay_of_mem hc (mem_values_append ws₂ (final_mem_values v ws₁)),
    replay_of_mem hc (mem_values_append ws₂ hstart)]

section Keyed

variable [DecidableEq κ]

/-- Keyed conditional writes applied in order to a map: each changes its own key only. -/
def replayAll (ws : List (κ × α × α)) (f : κ → α) : κ → α :=
  ws.foldl (fun f w => Function.update f w.1 (cas w.2.1 w.2.2 (f w.1))) f

/-- A replay of keyed writes, read at one key, is the replay of that key's writes. -/
theorem replayAll_apply (ws : List (κ × α × α)) (f : κ → α) (k : κ) :
    replayAll ws f k = replay (writesOf ws k) (f k) := by
  induction ws generalizing f with
  | nil => rfl
  | cons w ws ih =>
    simp only [replayAll, List.foldl_cons] at ih ⊢
    rw [ih]
    by_cases hk : w.1 = k
    · subst hk
      rw [writesOf_cons_self, replay_cons, Function.update_self]
    · rw [writesOf_cons_of_ne ws hk, Function.update_of_ne (Ne.symm hk)]

theorem replayAll_append (ws ws' : List (κ × α × α)) (f : κ → α) :
    replayAll (ws ++ ws') f = replayAll ws' (replayAll ws f) :=
  List.foldl_append ..

/-- Replaying keyed writes after a prefix of them leaves what replaying them once leaves, when the
writes of each key are a chain from the key's value. -/
theorem replayAll_replayAll_of_isPrefix {ws ws₁ : List (κ × α × α)} {f : κ → α}
    (hc : ∀ k, Chain (f k) (writesOf ws k)) (hp : ws₁ <+: ws) :
    replayAll ws (replayAll ws₁ f) = replayAll ws f := by
  funext k
  rw [replayAll_apply, replayAll_apply, replayAll_apply]
  exact replay_replay_of_isPrefix (hc k) (writesOf_isPrefix hp k)

end Keyed

end Replay

end Cas
