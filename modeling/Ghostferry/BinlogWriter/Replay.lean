import Ghostferry.DmlEvents
import Ghostferry.Lib.Cas

/-!
# Writing a batch again

`BinlogWriter.Run` sends each batch through `WithRetries`, so a batch whose transaction failed
after the target applied some of its statements is sent again from its first event. That is
harmless because each statement is a conditional write (`RowChange.apply`, which the statements
`AsSQLString` builds do, `AsSQLString_conditional_apply`): an `INSERT IGNORE` writes a row where
there is none, an `UPDATE` or a `DELETE` changes the row only where it holds the event's old
image.

A change that keeps its row's primary key is the keyed compare-and-set of `Cas`
(`RowChange.apply_eq_replayAll`): on its key, from the old image to the new one, `none` standing
for no row. A batch is the replay of those writes (`applyAll_eq`). When the events of each key
form a chain and the target holds the old image of each key's first event, a prefix of the batch
leaves the target on one of the values the chain passes through. Replaying the whole batch from
there waits at the keys that ran ahead and then follows them, and ends where one replay ends
(`replayed_batch_harmless`). An insert whose image has no key fails the statement, on the first
attempt and on the second alike.
-/

namespace Ghostferry

open Mysql Cas

/-- The keyed conditional write a change makes: its key, the image the target row must hold and
the image it leaves, `none` standing for no row; `none` when the image it reads has no key. -/
def RowChange.write (pk : ℕ) :
    RowChange → Option (ℕ × Option (List Value) × Option (List Value))
  | .insert new => (keyOf pk new).map fun k => (k, none, some new)
  | .update old new => (keyOf pk old).map fun k => (k, some old, some new)
  | .delete old => (keyOf pk old).map fun k => (k, some old, none)

/-- The change keeps the row's primary key: an update's new image has the old image's key. -/
def RowChange.KeepsKey (pk : ℕ) : RowChange → Prop
  | .update old new => keyOf pk new = keyOf pk old
  | _ => True

/-- An insert whose image has no key, which the target refuses. -/
def RowChange.keylessInsert (pk : ℕ) : RowChange → Bool
  | .insert new => (keyOf pk new).isNone
  | _ => false

/-- The keyed writes of changes, in order. -/
def RowChange.writes (pk : ℕ) (changes : List RowChange) :
    List (ℕ × Option (List Value) × Option (List Value)) :=
  changes.flatMap fun c => (c.write pk).toList

/-- The changes of a batch applied to the target's rows one after another, up to the first
error: what the statements of one `writeEvents` transaction do. -/
def applyAll (pk : ℕ) (changes : List RowChange) (rows : ℕ → Option (List Value)) :
    Except String (ℕ → Option (List Value)) :=
  changes.foldlM (fun rows c => c.apply pk rows) rows

/-! ## A change is a keyed conditional write -/

theorem RowChange.writes_cons (pk : ℕ) (c : RowChange) (changes : List RowChange) :
    RowChange.writes pk (c :: changes) = (c.write pk).toList ++ RowChange.writes pk changes :=
  List.flatMap_cons ..

theorem RowChange.writes_isPrefix {pk : ℕ} {P B : List RowChange} (h : P <+: B) :
    RowChange.writes pk P <+: RowChange.writes pk B := by
  obtain ⟨rest, rfl⟩ := h
  simp only [RowChange.writes, List.flatMap_append]
  exact List.prefix_append _ _

/-- A write that expects no row leaves the rows alone where there is one. -/
theorem update_cas_none {rows : ℕ → Option (List Value)} {k : ℕ} {r : List Value}
    (hk : rows k = some r) (new : Option (List Value)) :
    Function.update rows k (cas none new (rows k)) = rows := by
  rw [hk, cas_of_ne (Option.some_ne_none r), ← hk, Function.update_eq_self]

/-- A change that keeps its key, an insert without a key apart, applies its keyed write. -/
theorem RowChange.apply_eq_replayAll {pk : ℕ} {c : RowChange} (hkeep : c.KeepsKey pk)
    (hins : c.keylessInsert pk = false) (rows : ℕ → Option (List Value)) :
    c.apply pk rows = .ok (replayAll (c.write pk).toList rows) := by
  -- one case per kind of change, then whether the target holds the expected image
  cases c with
  | insert new =>
    obtain ⟨k, hk⟩ := Option.isSome_iff_exists.mp (by simpa [RowChange.keylessInsert] using hins)
    simp only [RowChange.apply, RowChange.write, hk, Option.map_some, Option.toList_some]
    cases hrow : rows k with
    | none => simp [replayAll, hrow]
    | some r => simp [replayAll, update_cas_none hrow]
  | update old new =>
    cases hk : keyOf pk old with
    | none => simp [RowChange.apply, RowChange.write, hk, replayAll]
    | some k =>
      have hk' : keyOf pk new = some k := (hkeep : keyOf pk new = keyOf pk old).trans hk
      simp only [RowChange.apply, RowChange.write, hk, hk', Option.map_some, Option.toList_some]
      by_cases hrow : rows k = some old
      · simp [replayAll, hrow, Function.update_idem]
      · simp [replayAll, hrow, cas_of_ne hrow]
  | delete old =>
    cases hk : keyOf pk old with
    | none => simp [RowChange.apply, RowChange.write, hk, replayAll]
    | some k =>
      simp only [RowChange.apply, RowChange.write, hk, Option.map_some, Option.toList_some]
      by_cases hrow : rows k = some old
      · simp [replayAll, hrow]
      · simp [replayAll, hrow, cas_of_ne hrow]

/-- An insert without a key fails. -/
theorem RowChange.apply_of_keylessInsert {pk : ℕ} {c : RowChange} (hins : c.keylessInsert pk)
    (rows : ℕ → Option (List Value)) : c.apply pk rows = .error "Incorrect primary key value" := by
  cases c with
  | insert new =>
    have hk : keyOf pk new = none := by simpa [RowChange.keylessInsert] using hins
    simp [RowChange.apply, hk]
  | update old new | delete old => simp [RowChange.keylessInsert] at hins

/-- A batch of changes that keep their keys is the replay of their keyed writes, unless it holds
an insert without a key, at which the transaction fails. -/
theorem applyAll_eq {pk : ℕ} {changes : List RowChange} (hkeep : ∀ c ∈ changes, c.KeepsKey pk)
    (rows : ℕ → Option (List Value)) :
    applyAll pk changes rows =
      if changes.any (RowChange.keylessInsert pk) then .error "Incorrect primary key value"
      else .ok (replayAll (RowChange.writes pk changes) rows) := by
  induction changes generalizing rows with
  | nil => rfl
  | cons c changes ih =>
    have ih' := ih fun c' h => hkeep c' (List.mem_cons_of_mem c h)
    rw [applyAll, List.foldlM_cons, List.any_cons]
    by_cases hins : c.keylessInsert pk
    · rw [RowChange.apply_of_keylessInsert hins, hins, Bool.true_or, if_pos rfl]
      rfl
    · rw [Bool.not_eq_true] at hins
      rw [RowChange.apply_eq_replayAll (hkeep c List.mem_cons_self) hins, hins, Bool.false_or]
      -- the rest of the batch runs from the rows the first change left
      change applyAll pk changes _ = _
      rw [ih', RowChange.writes_cons, replayAll_append]

/-! ## The batch sent again -/

theorem replayed_batch_harmless {pk : ℕ} (B P : List RowChange) (rows : ℕ → Option (List Value))
    (hkeep : ∀ c ∈ B, c.KeepsKey pk)
    (hchain : ∀ k, (writesOf (RowChange.writes pk B) k).IsChain fun w w' => w'.1 = w.2)
    (hfirst : ∀ k, ∀ w ∈ (writesOf (RowChange.writes pk B) k).head?, rows k = w.1)
    (hP : P <+: B) :
    applyAll pk P rows >>= applyAll pk B = applyAll pk B rows := by
  have hkeepP : ∀ c ∈ P, c.KeepsKey pk := fun c hc => hkeep c (hP.subset hc)
  -- each key's writes are a chain from the row the target holds
  have hc : ∀ k, Chain (rows k) (writesOf (RowChange.writes pk B) k) := fun k =>
    chain_of_isChain (fun w hw => (hfirst k w hw).symm) (hchain k)
  rw [applyAll_eq hkeepP, applyAll_eq hkeep]
  by_cases hPins : P.any (RowChange.keylessInsert pk)
  · -- the prefix fails at a keyless insert, which the whole batch holds too
    have hBins : B.any (RowChange.keylessInsert pk) := by
      obtain ⟨c, hc, hins⟩ := List.any_eq_true.mp hPins
      exact List.any_eq_true.mpr ⟨c, hP.subset hc, hins⟩
    rw [if_pos hPins, if_pos hBins]
    rfl
  · rw [if_neg hPins]
    change applyAll pk B _ = _
    rw [applyAll_eq hkeep]
    split_ifs
    · rfl
    · rw [replayAll_replayAll_of_isPrefix hc (RowChange.writes_isPrefix hP)]

/-- A batch that inserts the row `(1, 'a')` and then updates it to `(1, 'b')`. -/
def insertUpdateBatch : List RowChange :=
  [.insert [.int 1, .string ['a']], .update [.int 1, .string ['a']] [.int 1, .string ['b']]]

/-- The writes of `insertUpdateBatch` at each key: a chain at the key of `1`, nothing
elsewhere. -/
theorem writesOf_insertUpdateBatch (k : ℕ) :
    writesOf (RowChange.writes 0 insertUpdateBatch) k =
      if k = keyCode 1 then [(none, some [.int 1, .string ['a']]),
        (some [.int 1, .string ['a']], some [.int 1, .string ['b']])] else [] := by
  by_cases hk : k = keyCode 1
  · subst hk
    rfl
  · have hk' : keyCode 1 ≠ k := Ne.symm hk
    simp [writesOf, RowChange.writes, RowChange.write, insertUpdateBatch, keyOf, hk, hk']

theorem insertUpdateBatch_replayed :
    (∀ c ∈ insertUpdateBatch, c.KeepsKey 0) ∧
      (∀ k, (writesOf (RowChange.writes 0 insertUpdateBatch) k).IsChain
        fun w w' => w'.1 = w.2) ∧
      (∀ k, ∀ w ∈ (writesOf (RowChange.writes 0 insertUpdateBatch) k).head?,
        (fun _ => none : ℕ → Option (List Value)) k = w.1) ∧
      insertUpdateBatch.take 1 <+: insertUpdateBatch ∧
      applyAll 0 (insertUpdateBatch.take 1) (fun _ => none) >>= applyAll 0 insertUpdateBatch =
        applyAll 0 insertUpdateBatch (fun _ => none) := by
  have hkeep : ∀ c ∈ insertUpdateBatch, c.KeepsKey 0 := by
    simp [insertUpdateBatch, RowChange.KeepsKey, keyOf]
  have hchain : ∀ k, (writesOf (RowChange.writes 0 insertUpdateBatch) k).IsChain
      fun w w' => w'.1 = w.2 := by
    intro k
    rw [writesOf_insertUpdateBatch]
    split_ifs <;> simp
  have hfirst : ∀ k, ∀ w ∈ (writesOf (RowChange.writes 0 insertUpdateBatch) k).head?,
      (fun _ => none : ℕ → Option (List Value)) k = w.1 := by
    intro k w hw
    rw [writesOf_insertUpdateBatch] at hw
    split_ifs at hw
    · obtain rfl := Option.some.inj hw
      rfl
    · cases hw
  have hP : insertUpdateBatch.take 1 <+: insertUpdateBatch := List.take_prefix _ _
  exact ⟨hkeep, hchain, hfirst, hP,
    replayed_batch_harmless insertUpdateBatch _ _ hkeep hchain hfirst hP⟩

end Ghostferry
