import Ghostferry.Lib.Keyset

/-!
# The cursor's loop

`Cursor.Each` of `cursor.go` pages through a table from `lastSuccessfulPrimaryKey = 0`: while the
cursor is below `MaxPrimaryKey`, it fetches a batch with the active `BuildSelect`, stops when the
batch is empty, fails when the last row's key (`pkpos`) does not advance, and otherwise hands the
batch to its callback and moves the cursor to `pkpos`. `pass` is one pass of that loop after the
fetch, and `each` the whole loop, with the fetch and the callback as parameters: the batch is its
rows' primary keys and rows, in the order of the query's result.

`each` terminates because every pass either leaves the loop or raises the cursor, which the loop
guard keeps below `MaxPrimaryKey`. `DefaultBuildSelect` selects one keyset page
(`Keyset.KTable.page`), and `defaultFetch` is its batch.
-/

namespace Ghostferry

open Keyset

/-- What one pass of the loop of `Cursor.Each` does once the batch is fetched. -/
inductive Pass where
  /-- The loop ends: the cursor reached `MaxPrimaryKey`, or the batch was empty. -/
  | exit
  /-- `Each` returns an error. -/
  | fail (err : String)
  /-- The batch goes to the callback and the cursor moves to `pkpos`. -/
  | advance (pkpos : ℕ)
  deriving DecidableEq, Repr

/-- One pass of the loop of `Cursor.Each` at cursor `last`, after `Fetch` returned a batch whose
rows have the primary keys `pks`, in the result's order: `pkpos` is the last row's key. -/
def pass (MaxPrimaryKey last : ℕ) (pks : List ℕ) : Pass :=
  if last < MaxPrimaryKey then
    match pks.getLast? with
    | none => .exit
    | some pkpos =>
      if pkpos ≤ last then .fail "last successful pk position did not advance"
      else .advance pkpos
  else .exit

/-- A pass that advances moves the cursor up. -/
theorem lt_of_pass_eq_advance {MaxPrimaryKey last pkpos : ℕ} {pks : List ℕ}
    (h : pass MaxPrimaryKey last pks = .advance pkpos) :
    last < MaxPrimaryKey ∧ pks.getLast? = some pkpos ∧ last < pkpos := by
  unfold pass at h
  split at h
  · rename_i hlt
    split at h
    · cases h
    · rename_i pkpos' hlast
      split at h
      · cases h
      · cases h
        exact ⟨hlt, hlast, by omega⟩
  · cases h

/-- Error types that `fmt.Errorf` makes a value of, such as the cursor's error for a batch that
does not move it up. -/
class Errorf (ε : Type*) where
  errorf : String → ε

/-- A Go `error` as its message. -/
instance : Errorf String := ⟨id⟩

@[simp]
theorem errorf_string (msg : String) : (Errorf.errorf msg : String) = msg := rfl

/-- `Cursor.Each` from cursor `last`: the batches handed to the callback `f`, in order, and what
`Each` returns. `fetch last` is the batch read at cursor `last`, as rows with their primary keys,
or the error that `Fetch` returned after its retries. -/
def each {ε B : Type*} [Errorf ε] (fetch : ℕ → Except ε (List (ℕ × B)))
    (f : List (ℕ × B) → Except ε Unit) (MaxPrimaryKey last : ℕ) :
    List (List (ℕ × B)) × Except ε Unit :=
  if hlt : last < MaxPrimaryKey then
    match fetch last with
    | .error err => ([], .error err)
    | .ok batch =>
      match hp : pass MaxPrimaryKey last (batch.map Prod.fst) with
      | .exit => ([], .ok ())
      | .fail err => ([], .error (Errorf.errorf err))
      | .advance pkpos =>
        match f batch with
        | .error err => ([batch], .error err)
        | .ok () =>
          have : MaxPrimaryKey - pkpos < MaxPrimaryKey - last := by
            have := (lt_of_pass_eq_advance hp).2.2
            omega
          let rest := each fetch f MaxPrimaryKey pkpos
          (batch :: rest.1, rest.2)
  else ([], .ok ())
termination_by MaxPrimaryKey - last

/-- A pass exits exactly when the cursor reached `MaxPrimaryKey` or the batch is empty. -/
theorem pass_eq_exit_iff {MaxPrimaryKey last : ℕ} {pks : List ℕ} :
    pass MaxPrimaryKey last pks = .exit ↔ ¬ last < MaxPrimaryKey ∨ pks = [] := by
  unfold pass
  split
  · rename_i hlt
    split
    · rename_i hnil
      simp_all
    · rename_i pkpos hlast
      have hne : pks ≠ [] := by
        intro h
        simp [h] at hlast
      split <;> simp [hlt, hne]
  · simp_all

/-! ## The loop, pass by pass -/

section Loop

variable {ε B : Type*} [Errorf ε] {fetch : ℕ → Except ε (List (ℕ × B))}
  {f : List (ℕ × B) → Except ε Unit} {M last : ℕ}

/-- At or past `MaxPrimaryKey` the loop ends at once. -/
theorem each_of_le (h : M ≤ last) : each fetch f M last = ([], .ok ()) := by
  rw [each, dif_neg (by omega)]

/-- A fetch that fails ends the loop with its error. -/
theorem each_of_fetch_error (hlt : last < M) {err : ε} (hf : fetch last = .error err) :
    each fetch f M last = ([], .error err) := by
  rw [each, dif_pos hlt, hf]

/-- Once the batch is fetched, the loop goes as the pass on its keys says. -/
theorem each_of_fetch_ok (hlt : last < M) {batch : List (ℕ × B)} (hf : fetch last = .ok batch) :
    each fetch f M last =
      match pass M last (batch.map Prod.fst) with
      | .exit => ([], .ok ())
      | .fail err => ([], .error (Errorf.errorf err))
      | .advance pkpos =>
        match f batch with
        | .error err => ([batch], .error err)
        | .ok () => (batch :: (each fetch f M pkpos).1, (each fetch f M pkpos).2) := by
  rw [each, dif_pos hlt, hf]
  dsimp only
  split <;> rename_i hp <;> rw [hp]

/-- The batch goes to the callback, and a rejected batch ends the loop with the callback's
error. -/
theorem each_of_advance_error (hlt : last < M) {batch : List (ℕ × B)} {pkpos : ℕ} {err : ε}
    (hf : fetch last = .ok batch) (hp : pass M last (batch.map Prod.fst) = .advance pkpos)
    (hcb : f batch = .error err) : each fetch f M last = ([batch], .error err) := by
  rw [each_of_fetch_ok hlt hf, hp]
  dsimp only
  rw [hcb]

/-- An accepted batch is the first of the loop, which goes on from the batch's last key. -/
theorem each_of_advance_ok (hlt : last < M) {batch : List (ℕ × B)} {pkpos : ℕ}
    (hf : fetch last = .ok batch) (hp : pass M last (batch.map Prod.fst) = .advance pkpos)
    (hcb : f batch = .ok ()) :
    each fetch f M last = (batch :: (each fetch f M pkpos).1, (each fetch f M pkpos).2) := by
  rw [each_of_fetch_ok hlt hf, hp]
  dsimp only
  rw [hcb]

/-- `Cursor.Each` with a callback `f` reads what the same cursor reads with a callback that accepts
every batch: either `f` takes every one of those batches and `Each` ends as that cursor does, or
`Each` stops at the first of them that `f` rejects, with the callback's error. -/
theorem each_cases (fetch : ℕ → Except ε (List (ℕ × B))) (f : List (ℕ × B) → Except ε Unit)
    (M last : ℕ) :
    ((∀ b ∈ (each fetch (fun _ => .ok ()) M last).1, f b = .ok ()) ∧
        each fetch f M last = each fetch (fun _ => .ok ()) M last) ∨
      ∃ pre b post err, (each fetch (fun _ => .ok ()) M last).1 = pre ++ b :: post ∧
        (∀ x ∈ pre, f x = .ok ()) ∧ f b = .error err ∧
        each fetch f M last = (pre ++ [b], .error err) := by
  -- induction on the distance to `MaxPrimaryKey`, which every accepted batch shrinks
  induction hd : M - last using Nat.strong_induction_on generalizing last with
  | _ d ih =>
  by_cases hlt : last < M
  · cases hf : fetch last with
    | error err =>
      exact .inl ⟨by simp [each_of_fetch_error hlt hf],
        by rw [each_of_fetch_error hlt hf, each_of_fetch_error hlt hf]⟩
    | ok batch =>
      cases hp : pass M last (batch.map Prod.fst) with
      | exit =>
        refine .inl ⟨?_, ?_⟩
        · simp [each_of_fetch_ok hlt hf, hp]
        · rw [each_of_fetch_ok hlt hf, each_of_fetch_ok hlt hf, hp]
      | fail msg =>
        refine .inl ⟨?_, ?_⟩
        · simp [each_of_fetch_ok hlt hf, hp]
        · rw [each_of_fetch_ok hlt hf, each_of_fetch_ok hlt hf, hp]
      | advance pkpos =>
        have hnext := (lt_of_pass_eq_advance hp).2.2
        rw [each_of_advance_ok hlt hf hp rfl]
        cases hcb : f batch with
        | error err =>
          -- the callback rejects the first batch
          exact .inr ⟨[], batch, _, err, rfl, by simp, hcb, each_of_advance_error hlt hf hp hcb⟩
        | ok u =>
          -- the callback takes the first batch, and the rest is the loop from `pkpos`
          rw [each_of_advance_ok hlt hf hp hcb]
          rcases ih (M - pkpos) (by omega) pkpos rfl with
            ⟨hall, hrest⟩ | ⟨pre, b, post, err, hbatches, hpre, hb, hrest⟩
          · exact .inl ⟨List.forall_mem_cons.mpr ⟨hcb, hall⟩, by rw [hrest]⟩
          · refine .inr ⟨batch :: pre, b, post, err, by rw [hbatches]; rfl,
              List.forall_mem_cons.mpr ⟨hcb, hpre⟩, hb, ?_⟩
            rw [hrest]
            rfl
  · exact .inl ⟨by simp [each_of_le (not_lt.mp hlt)],
      by rw [each_of_le (not_lt.mp hlt), each_of_le (not_lt.mp hlt)]⟩

/-- A cursor whose callback accepts every batch fails only with the error of a fetch or its own
error for a batch that does not move it up. -/
theorem each_error_of_accept {err : ε}
    (h : (each fetch (fun _ => .ok ()) M last).2 = .error err) :
    (∃ l, fetch l = .error err) ∨ ∃ msg, err = Errorf.errorf msg := by
  induction hd : M - last using Nat.strong_induction_on generalizing last with
  | _ d ih =>
  by_cases hlt : last < M
  · cases hf : fetch last with
    | error e =>
      rw [each_of_fetch_error hlt hf] at h
      obtain rfl := Except.error.inj h
      exact .inl ⟨last, hf⟩
    | ok batch =>
      rw [each_of_fetch_ok hlt hf] at h
      cases hp : pass M last (batch.map Prod.fst) with
      | exit =>
        rw [hp] at h
        cases h
      | fail msg =>
        rw [hp] at h
        exact .inr ⟨msg, (Except.error.inj h).symm⟩
      | advance pkpos =>
        rw [hp] at h
        have hnext := (lt_of_pass_eq_advance hp).2.2
        exact ih (M - pkpos) (by omega) h rfl
  · rw [each_of_le (not_lt.mp hlt)] at h
    cases h

end Loop

/-! ## The default query -/

/-- `DefaultBuildSelect`: `SELECT columns FROM table WHERE pk > lastPk ORDER BY pk LIMIT
batchSize` selects the rows of one keyset page, in key order. -/
def DefaultBuildSelect {R : Type*} (t : KTable R) (lastPk batchSize : ℕ) : List ℕ :=
  t.page lastPk batchSize

/-- The batch `Fetch` reads with `DefaultBuildSelect`: the page's keys with their rows. -/
def defaultFetch {R : Type*} (t : KTable R) (batchSize lastPk : ℕ) : List (ℕ × Option R) :=
  (DefaultBuildSelect t lastPk batchSize).map fun k => (k, t.rows k)

variable {R : Type*} {t : KTable R} {maxPk last bs pkpos k : ℕ}

/-- A pass over a keyset page never fails: every key of the page is above the cursor. -/
theorem pass_page_ne_fail (S : Finset ℕ) (err : String) :
    pass maxPk last (Keyset.page S last bs) ≠ .fail err := by
  intro h
  unfold pass at h
  split at h
  · split at h
    · cases h
    · rename_i pkpos hlast
      split at h
      · rename_i hle
        have hmem : pkpos ∈ Keyset.page S last bs := List.mem_of_getLast? hlast
        have := (Keyset.mem_page hmem).2
        omega
      · cases h
  · cases h

/-- A pass over a default page never fails. -/
theorem pass_defaultBuildSelect_ne_fail (err : String) :
    pass maxPk last (DefaultBuildSelect t last bs) ≠ .fail err :=
  pass_page_ne_fail t.keys err

/-- A pass over a default page that advances moves the cursor to the page's last key, and the
page holds every key of the table between the old cursor and the new one. -/
theorem mem_defaultBuildSelect_of_advance
    (h : pass maxPk last (DefaultBuildSelect t last bs) = .advance pkpos)
    (hk : (t.rows k).isSome) (hlt : last < k) (hle : k ≤ pkpos) :
    k ∈ DefaultBuildSelect t last bs := by
  obtain ⟨-, hlast, -⟩ := lt_of_pass_eq_advance h
  have hne : DefaultBuildSelect t last bs ≠ [] := by
    intro hnil
    rw [hnil] at hlast
    cases hlast
  have hget : (DefaultBuildSelect t last bs).getLast hne = pkpos := by
    rw [List.getLast?_eq_some_getLast hne] at hlast
    exact Option.some.inj hlast
  exact Keyset.mem_page_of_le hne (t.mem_keys_iff.mpr hk) hlt (hget ▸ hle)

/-! ## Paging a key set -/

section Paging

variable {ε B : Type*} (S : Finset ℕ) (rowOf : ℕ → B) (bs : ℕ)

/-- The fetch of a query that selects one keyset page of `S`, in key order. -/
def pageFetch (lastPk : ℕ) : Except ε (List (ℕ × B)) :=
  .ok ((Keyset.page S lastPk bs).map fun k => (k, rowOf k))

variable {S rowOf bs} [Errorf ε]

@[simp]
theorem map_fst_map_pair (l : List ℕ) : (l.map fun k => (k, rowOf k)).map Prod.fst = l := by
  simp [Function.comp_def]

/-- Paging a key set misses nothing: `Cursor.Each` over a query that selects a keyset page of `S`
at every cursor hands every key of `S` above the cursor and up to `MaxPrimaryKey` to the
callback, when the callback succeeds. -/
theorem mem_each_pageFetch (hbs : 0 < bs) {f : List (ℕ × B) → Except ε Unit}
    (hf : ∀ batch, f batch = .ok ()) (MaxPrimaryKey : ℕ) {last k : ℕ} (hk : k ∈ S)
    (hlt : last < k) (hle : k ≤ MaxPrimaryKey) :
    ∃ batch ∈ (each (pageFetch S rowOf bs) f MaxPrimaryKey last).1, k ∈ batch.map Prod.fst := by
  -- induction on the distance to `MaxPrimaryKey`, which every pass that advances shrinks
  induction hd : MaxPrimaryKey - last using Nat.strong_induction_on generalizing last with
  | _ d ih =>
  have hlast : last < MaxPrimaryKey := by omega
  rw [each, dif_pos hlast]
  simp only [pageFetch]
  split
  · -- the page is empty only when no key of `S` is above the cursor
    rename_i hexit
    rw [map_fst_map_pair] at hexit
    rcases pass_eq_exit_iff.mp hexit with h | h
    · exact absurd hlast h
    · have := (Keyset.page_eq_nil_iff hbs).mp h k hk
      omega
  · rename_i err hfail
    rw [map_fst_map_pair] at hfail
    exact absurd hfail (pass_page_ne_fail S err)
  · rename_i pkpos hadv
    rw [map_fst_map_pair] at hadv
    rw [hf]
    simp only [List.mem_cons, exists_eq_or_imp]
    by_cases hkp : k ≤ pkpos
    · -- the page reaches `k`, so `k` is in this batch
      left
      have hne : Keyset.page S last bs ≠ [] := by
        intro hnil
        have := (lt_of_pass_eq_advance hadv).2.1
        rw [hnil] at this
        cases this
      have hget : (Keyset.page S last bs).getLast hne = pkpos := by
        have := (lt_of_pass_eq_advance hadv).2.1
        rw [List.getLast?_eq_some_getLast hne] at this
        exact Option.some.inj this
      simpa using Keyset.mem_page_of_le hne hk hlt (hget ▸ hkp)
    · -- `k` is above the new cursor: the rest of the loop delivers it
      right
      have hadv' := (lt_of_pass_eq_advance hadv).2.2
      exact ih (MaxPrimaryKey - pkpos) (by omega) (by omega) rfl

/-- Paging a key set selects nothing else: every key `Cursor.Each` hands to the callback is in
`S`. -/
theorem mem_of_mem_each_pageFetch {f : List (ℕ × B) → Except ε Unit} (MaxPrimaryKey : ℕ)
    {last : ℕ} {batch : List (ℕ × B)}
    (hb : batch ∈ (each (pageFetch S rowOf bs) f MaxPrimaryKey last).1) :
    ∀ k ∈ batch.map Prod.fst, k ∈ S := by
  induction hd : MaxPrimaryKey - last using Nat.strong_induction_on generalizing last with
  | _ d ih =>
  rw [each] at hb
  split at hb
  · rename_i hlast
    simp only [pageFetch] at hb
    split at hb
    · simp at hb
    · simp at hb
    · rename_i pkpos hadv
      split at hb
      · simp only [List.mem_singleton] at hb
        subst hb
        intro k hk
        rw [map_fst_map_pair] at hk
        exact (Keyset.mem_page hk).1
      · simp only [List.mem_cons] at hb
        rcases hb with rfl | hb
        · intro k hk
          rw [map_fst_map_pair] at hk
          exact (Keyset.mem_page hk).1
        · have hadv' := (lt_of_pass_eq_advance hadv).2.2
          exact ih (MaxPrimaryKey - pkpos) (by omega) hb rfl
  · simp at hb

/-! ### A callback that accepts every batch -/

/-- The batches `Cursor.Each` over keyset pages of `S` hands to a callback that accepts them
all. -/
def pageBatches (S : Finset ℕ) (rowOf : ℕ → B) (bs M last : ℕ) : List (List (ℕ × B)) :=
  (each (pageFetch S rowOf bs) (fun _ => (.ok () : Except String Unit)) M last).1

variable {M : ℕ}

theorem each_pageFetch_of_exit (h : pass M last (Keyset.page S last bs) = .exit) :
    each (pageFetch S rowOf bs) (fun _ => (.ok () : Except ε Unit)) M last = ([], .ok ()) := by
  rw [each]
  split
  · simp only [pageFetch]
    split
    · rfl
    · rename_i err hfail
      rw [map_fst_map_pair, h] at hfail
      cases hfail
    · rename_i pkpos' hadv
      rw [map_fst_map_pair, h] at hadv
      cases hadv
  · rfl

theorem each_pageFetch_of_advance (h : pass M last (Keyset.page S last bs) = .advance pkpos) :
    each (pageFetch S rowOf bs) (fun _ => (.ok () : Except ε Unit)) M last =
      ((Keyset.page S last bs).map (fun k => (k, rowOf k)) ::
          (each (pageFetch S rowOf bs) (fun _ => (.ok () : Except ε Unit)) M pkpos).1,
        (each (pageFetch S rowOf bs) (fun _ => (.ok () : Except ε Unit)) M pkpos).2) := by
  rw [each, dif_pos (lt_of_pass_eq_advance h).1]
  simp only [pageFetch]
  split
  · rename_i hexit
    rw [map_fst_map_pair, h] at hexit
    cases hexit
  · rename_i err hfail
    rw [map_fst_map_pair, h] at hfail
    cases hfail
  · rename_i pkpos' hadv
    rw [map_fst_map_pair, h] at hadv
    cases hadv
    rfl

theorem pageBatches_of_exit (h : pass M last (Keyset.page S last bs) = .exit) :
    pageBatches S rowOf bs M last = [] := by
  rw [pageBatches, each_pageFetch_of_exit h]

theorem pageBatches_of_advance (h : pass M last (Keyset.page S last bs) = .advance pkpos) :
    pageBatches S rowOf bs M last =
      (Keyset.page S last bs).map (fun k => (k, rowOf k)) :: pageBatches S rowOf bs M pkpos := by
  rw [pageBatches, each_pageFetch_of_advance h]
  rfl

/-- A pass over a keyset page exits or advances. -/
theorem pass_page_cases (S : Finset ℕ) (M last bs : ℕ) :
    pass M last (Keyset.page S last bs) = .exit ∨
      ∃ pkpos, pass M last (Keyset.page S last bs) = .advance pkpos := by
  cases hp : pass M last (Keyset.page S last bs) with
  | exit => exact .inl rfl
  | fail err => exact absurd hp (pass_page_ne_fail S err)
  | advance pkpos => exact .inr ⟨pkpos, rfl⟩

/-- With a callback that accepts every batch, `Each` returns nil. -/
theorem each_pageFetch_eq (M last : ℕ) :
    each (pageFetch S rowOf bs) (fun _ => (.ok () : Except ε Unit)) M last =
      (pageBatches S rowOf bs M last, .ok ()) := by
  induction hd : M - last using Nat.strong_induction_on generalizing last with
  | _ d ih =>
  rcases pass_page_cases S M last bs with h | ⟨pkpos, h⟩
  · rw [each_pageFetch_of_exit h, pageBatches_of_exit h]
  · -- the pass moves the cursor up, closer to `M`
    have hstep := lt_of_pass_eq_advance h
    rw [each_pageFetch_of_advance h, pageBatches_of_advance h,
      ih (M - pkpos) (by omega) pkpos rfl]

/-- Every batch is one non-empty page. -/
theorem mem_pageBatches {M last : ℕ} {b : List (ℕ × B)} (hb : b ∈ pageBatches S rowOf bs M last) :
    ∃ last', b = (Keyset.page S last' bs).map (fun k => (k, rowOf k)) ∧
      Keyset.page S last' bs ≠ [] := by
  induction hd : M - last using Nat.strong_induction_on generalizing last with
  | _ d ih =>
  rcases pass_page_cases S M last bs with h | ⟨pkpos, h⟩
  · rw [pageBatches_of_exit h] at hb
    cases hb
  · have hstep := lt_of_pass_eq_advance h
    rw [pageBatches_of_advance h, List.mem_cons] at hb
    rcases hb with rfl | hb
    · refine ⟨last, rfl, fun hnil => ?_⟩
      rw [hnil] at hstep
      cases hstep.2.1
    · exact ih (M - pkpos) (by omega) hb rfl

/-- The keys of the batches are consecutive keys of `S` above the cursor, ascending. -/
theorem flatten_pageBatches_isPrefix (M last : ℕ) :
    ((pageBatches S rowOf bs M last).flatten.map Prod.fst) <+: Keyset.above S last := by
  induction hd : M - last using Nat.strong_induction_on generalizing last with
  | _ d ih =>
  rcases pass_page_cases S M last bs with h | ⟨pkpos, h⟩
  · rw [pageBatches_of_exit h]
    exact List.nil_prefix
  · obtain ⟨hM, hlast, hlt⟩ := lt_of_pass_eq_advance h
    have hne : Keyset.page S last bs ≠ [] := fun hnil => by
      rw [hnil] at hlast
      cases hlast
    have hget : (Keyset.page S last bs).getLast hne = pkpos := by
      rw [List.getLast?_eq_some_getLast hne] at hlast
      exact Option.some.inj hlast
    -- the page, then the keys above its last one
    rw [pageBatches_of_advance h, List.flatten_cons, List.map_append, map_fst_map_pair,
      Keyset.above_eq_page_append hne, hget]
    exact (List.prefix_append_right_inj _).mpr (ih (M - pkpos) (by omega) pkpos rfl)

/-- With `MaxPrimaryKey` at or above every key, the batches list every key above the cursor, in
ascending order: what the loop reads is a prefix of those keys, and it misses none of them. -/
theorem flatten_pageBatches (hbs : 0 < bs) (hM : ∀ k ∈ S, k ≤ M) (last : ℕ) :
    (pageBatches S rowOf bs M last).flatten.map Prod.fst = Keyset.above S last := by
  have hpre : (pageBatches S rowOf bs M last).flatten.map Prod.fst <+: Keyset.above S last :=
    flatten_pageBatches_isPrefix M last
  have hsub : Keyset.above S last ⊆ (pageBatches S rowOf bs M last).flatten.map Prod.fst := by
    intro k hk
    obtain ⟨hkS, hlt⟩ := Keyset.mem_above.mp hk
    have hcover : ∃ batch ∈ pageBatches S rowOf bs M last, k ∈ batch.map Prod.fst :=
      mem_each_pageFetch hbs (fun _ => rfl) M hkS hlt (hM k hkS)
    obtain ⟨batch, hb, hkb⟩ := hcover
    rw [List.mem_map] at hkb ⊢
    obtain ⟨p, hp, rfl⟩ := hkb
    exact ⟨p, List.mem_flatten.mpr ⟨batch, hb, hp⟩, rfl⟩
  have hnd : (Keyset.above S last).Nodup := (Keyset.above_sorted S last).imp Nat.ne_of_lt
  exact hpre.eq_of_length (Nat.le_antisymm hpre.length_le
    (List.subperm_of_subset hnd hsub).length_le)

/-- A pair of a batch is a key with its row. -/
theorem eq_of_mem_pageBatches {M last : ℕ} {b : List (ℕ × B)} {p : ℕ × B}
    (hb : b ∈ pageBatches S rowOf bs M last) (hp : p ∈ b) : p = (p.1, rowOf p.1) := by
  obtain ⟨last', rfl, -⟩ := mem_pageBatches hb
  obtain ⟨k, -, rfl⟩ := List.mem_map.mp hp
  rfl

/-- With `MaxPrimaryKey` at or above every key, what holds of every pair of every batch is what
holds of every key above the cursor with its row. -/
theorem forall_mem_pageBatches_iff (hbs : 0 < bs) (hM : ∀ k ∈ S, k ≤ M) (last : ℕ)
    (P : ℕ × B → Prop) :
    (∀ b ∈ pageBatches S rowOf bs M last, ∀ p ∈ b, P p) ↔
      ∀ k ∈ Keyset.above S last, P (k, rowOf k) := by
  rw [← flatten_pageBatches hbs hM last]
  constructor
  · intro hall k hk
    obtain ⟨p, hp, rfl⟩ := List.mem_map.mp hk
    obtain ⟨b, hb, hpb⟩ := List.mem_flatten.mp hp
    rw [← eq_of_mem_pageBatches hb hpb]
    exact hall b hb p hpb
  · intro hall b hb p hpb
    have hp : p.1 ∈ (pageBatches S rowOf bs M last).flatten.map Prod.fst :=
      List.mem_map_of_mem (List.mem_flatten.mpr ⟨b, hb, hpb⟩)
    rw [eq_of_mem_pageBatches hb hpb]
    exact hall p.1 hp

end Paging

end Ghostferry
