import Mathlib

/-!
# Maps as lists of entries

A finite map is the list of its entries, each key once (`(m.map Prod.fst).Nodup`): `lookup`
reads it, and `modify` changes the value at a key in place. A map whose values are lists of items,
as a map to sets is, has the pairs of each key with each of its items, `pairs`. How `pairs` changes
when a key joins the map with one item (`pairs_append`) or an item joins a key's list
(`pairs_modify_perm`) is what a counter of the pairs has to follow.

A map has no order, but a walk over its entries does. `RangeOrder m order` says that `order` lists
the same keys and the same pairs as `m`: it is an order in which a walk that may pick any order, as
Go's `range` over a map does, visits `m`.
-/

namespace Assoc

variable {κ α β : Type*}

/-- In a list of pairs with distinct keys, looking a key up finds the pair with that key. -/
theorem lookup_eq_some_iff_mem [BEq κ] [LawfulBEq κ] {l : List (κ × β)} {a : κ}
    {b : β} (hnd : (l.map Prod.fst).Nodup) : l.lookup a = some b ↔ (a, b) ∈ l := by
  induction l generalizing b with
  | nil => simp
  | cons p l ih =>
    obtain ⟨k, v⟩ := p
    rw [List.map_cons, List.nodup_cons] at hnd
    rw [List.lookup_cons, List.mem_cons, ← ih hnd.2]
    by_cases hak : a = k
    · subst hak
      -- the head has the key; no later pair does
      have hnot : l.lookup a = none := by
        cases hl : l.lookup a with
        | none => rfl
        | some b' =>
          have := List.mem_map_of_mem (f := Prod.fst) ((ih hnd.2).mp hl)
          exact absurd this hnd.1
      simp [hnot, eq_comm]
    · have hbeq : (a == k) = false := beq_false_of_ne hak
      simp only [hbeq, Prod.mk.injEq, hak, false_and, false_or]

/-- A key the map lacks, added at the end, keeps the keys distinct. -/
theorem nodup_keys_append {m : List (κ × β)} (hnd : (m.map Prod.fst).Nodup) {k : κ}
    (hk : k ∉ m.map Prod.fst) (v : β) : ((m ++ [(k, v)]).map Prod.fst).Nodup := by
  rw [List.map_append, List.nodup_append]
  refine ⟨hnd, List.nodup_singleton _, fun a ha b hb => ?_⟩
  rw [List.mem_singleton.mp hb]
  rintro rfl
  exact hk ha

/-! ## The pairs of a map to lists -/

/-- Each key with each item of its list, key by key. -/
def pairs (m : List (κ × List α)) : List (κ × α) :=
  m.flatMap fun e => e.2.map (e.1, ·)

@[simp]
theorem pairs_nil : pairs ([] : List (κ × List α)) = [] := rfl

theorem pairs_cons (e : κ × List α) (m : List (κ × List α)) :
    pairs (e :: m) = e.2.map (e.1, ·) ++ pairs m :=
  List.flatMap_cons ..

theorem pairs_append (m m' : List (κ × List α)) : pairs (m ++ m') = pairs m ++ pairs m' :=
  List.flatMap_append

theorem fst_mem_of_mem_pairs {m : List (κ × List α)} {p : κ × α} (h : p ∈ pairs m) :
    p.1 ∈ m.map Prod.fst := by
  obtain ⟨e, he, hp⟩ := List.mem_flatMap.mp h
  obtain ⟨x, -, rfl⟩ := List.mem_map.mp hp
  exact List.mem_map_of_mem he

/-- `order` holds the keys and the pairs of `m`, in some order. -/
def RangeOrder (m order : List (κ × List α)) : Prop :=
  (order.map Prod.fst).Perm (m.map Prod.fst) ∧ (pairs order).Perm (pairs m)

variable [DecidableEq κ]

instance [DecidableEq α] (m order : List (κ × List α)) : Decidable (RangeOrder m order) :=
  inferInstanceAs (Decidable (_ ∧ _))

theorem lookup_eq_none_iff {m : List (κ × β)} {k : κ} :
    m.lookup k = none ↔ k ∉ m.map Prod.fst := by
  rw [List.lookup_eq_none_iff]
  constructor
  · intro h hk
    obtain ⟨p, hp, rfl⟩ := List.mem_map.mp hk
    simpa using h p hp
  · intro h p hp
    rw [bne_iff_ne]
    rintro rfl
    exact h (List.mem_map_of_mem hp)

/-- In a map with distinct keys, a pair is the key with an item of the list the key looks up. -/
theorem mem_pairs_iff {m : List (κ × List α)} (hnd : (m.map Prod.fst).Nodup) {k : κ} {x : α} :
    (k, x) ∈ pairs m ↔ ∃ s, m.lookup k = some s ∧ x ∈ s := by
  simp only [lookup_eq_some_iff_mem hnd, pairs, List.mem_flatMap, List.mem_map, Prod.mk.injEq]
  constructor
  · rintro ⟨e, he, y, hy, rfl, rfl⟩
    exact ⟨e.2, he, hy⟩
  · rintro ⟨s, hs, hx⟩
    exact ⟨(k, s), hs, x, hx, rfl, rfl⟩

/-! ## Changing a value in place -/

/-- The map with `f` applied to the value at `k`. -/
def modify (m : List (κ × β)) (k : κ) (f : β → β) : List (κ × β) :=
  m.map fun e => if e.1 = k then (e.1, f e.2) else e

theorem modify_cons (e : κ × β) (m : List (κ × β)) (k : κ) (f : β → β) :
    modify (e :: m) k f = (if e.1 = k then (e.1, f e.2) else e) :: modify m k f :=
  rfl

@[simp]
theorem map_fst_modify (m : List (κ × β)) (k : κ) (f : β → β) :
    (modify m k f).map Prod.fst = m.map Prod.fst := by
  simp only [modify, List.map_map]
  congr 1
  funext e
  by_cases h : e.1 = k <;> simp [h]

theorem modify_of_not_mem {m : List (κ × β)} {k : κ} (f : β → β) (h : k ∉ m.map Prod.fst) :
    modify m k f = m := by
  have hfix : ∀ e ∈ m, (if e.1 = k then (e.1, f e.2) else e) = e := fun e he =>
    if_neg fun (hk : e.1 = k) => h (hk ▸ List.mem_map_of_mem he)
  exact (List.map_congr_left hfix).trans (List.map_id' m)

/-- Reading a key after a change in place: the changed value at `k`, the old value elsewhere. -/
theorem lookup_modify (m : List (κ × β)) (k : κ) (f : β → β) (k' : κ) :
    (modify m k f).lookup k' = if k' = k then (m.lookup k').map f else m.lookup k' := by
  induction m with
  | nil => split_ifs <;> rfl
  | cons e m ih =>
    obtain ⟨j, v⟩ := e
    rw [modify_cons]
    by_cases hj : j = k
    · subst hj
      rw [if_pos rfl]
      by_cases hk' : k' = j
      · subst hk'
        simp
      · simp [List.lookup_cons, beq_false_of_ne hk', ih, hk']
    · rw [if_neg hj]
      by_cases hk' : k' = j
      · subst hk'
        simp [hj]
      · simp [List.lookup_cons, beq_false_of_ne hk', ih]

/-- `m[k] = v`: the value at `k` replaced, or `k` added at the end. -/
def set (m : List (κ × β)) (k : κ) (v : β) : List (κ × β) :=
  if k ∈ m.map Prod.fst then modify m k (fun _ => v) else m ++ [(k, v)]

theorem lookup_set (m : List (κ × β)) (k : κ) (v : β) (k' : κ) :
    (set m k v).lookup k' = if k' = k then some v else m.lookup k' := by
  unfold set
  by_cases hk' : k' = k
  · subst hk'
    rw [if_pos rfl]
    split_ifs with hk
    · -- the key is there: its value is replaced
      rw [lookup_modify, if_pos rfl]
      cases hl : m.lookup k' with
      | none => exact absurd (lookup_eq_none_iff.mp hl) (not_not.mpr hk)
      | some w => rfl
    · rw [List.lookup_append, lookup_eq_none_iff.mpr hk]
      simp
  · rw [if_neg hk']
    split_ifs
    · rw [lookup_modify, if_neg hk']
    · rw [List.lookup_append]
      simp [List.lookup_cons, beq_false_of_ne hk']

theorem nodup_keys_set {m : List (κ × β)} (hnd : (m.map Prod.fst).Nodup) (k : κ) (v : β) :
    ((set m k v).map Prod.fst).Nodup := by
  unfold set
  split_ifs with hk
  · rwa [map_fst_modify]
  · exact nodup_keys_append hnd hk v

/-- Changing the value at a key in place changes the sum of the values by the difference. -/
theorem sum_modify [AddCommMonoid β] {m : List (κ × β)} (hnd : (m.map Prod.fst).Nodup) {k : κ}
    {b : β} (hk : m.lookup k = some b) (f : β → β) :
    ((modify m k f).map Prod.snd).sum + b = (m.map Prod.snd).sum + f b := by
  induction m with
  | nil => cases hk
  | cons e m ih =>
    obtain ⟨j, v⟩ := e
    rw [List.map_cons, List.nodup_cons] at hnd
    rw [modify_cons]
    by_cases hj : j = k
    · -- the head holds the key; the rest of the map does not
      subst hj
      have hv : v = b := by simpa [List.lookup_cons] using hk
      subst hv
      rw [if_pos rfl, modify_of_not_mem _ hnd.1]
      simp only [List.map_cons, List.sum_cons]
      ac_rfl
    · have hk' : m.lookup k = some b := by
        simpa [List.lookup_cons, beq_false_of_ne (Ne.symm hj)] using hk
      rw [if_neg hj]
      simp only [List.map_cons, List.sum_cons]
      rw [add_assoc, ih hnd.2 hk', add_assoc]

/-- Assigning `v` at `k` changes the sum of the values by `v` less the old value, `0` where there
was none. -/
theorem sum_set [AddCommGroup β] {m : List (κ × β)} (hnd : (m.map Prod.fst).Nodup) (k : κ) (v : β) :
    ((set m k v).map Prod.snd).sum = (m.map Prod.snd).sum + (v - (m.lookup k).getD 0) := by
  unfold set
  split_ifs with hk
  · obtain ⟨b, hb⟩ := Option.ne_none_iff_exists'.mp (fun h => lookup_eq_none_iff.mp h hk)
    have hsum := sum_modify hnd hb (fun _ => v)
    rw [hb, Option.getD_some, add_sub, ← hsum, add_sub_cancel_right]
  · rw [lookup_eq_none_iff.mpr hk, Option.getD_none, sub_zero, List.map_append, List.sum_append]
    simp

/-- After a sequence of assignments, a key holds the value of the last one to it, or its old
value when none assigned it. -/
theorem lookup_foldl_set {ι : Type*} (f : ι → κ) (g : ι → β) (l : List ι) (m : List (κ × β))
    (k : κ) : (l.foldl (fun m i => set m (f i) (g i)) m).lookup k =
      ((l.filter fun i => f i = k).getLast?.map g).or (m.lookup k) := by
  induction l generalizing m with
  | nil => simp
  | cons i l ih =>
    rw [List.foldl_cons, ih, lookup_set, List.filter_cons]
    by_cases hi : f i = k
    · -- this assignment counts unless a later one to `k` overrides it
      subst hi
      rw [if_pos rfl, if_pos (decide_eq_true rfl), List.getLast?_cons]
      cases (l.filter fun j => f j = f i).getLast? <;> rfl
    · rw [if_neg (Ne.symm hi), if_neg (by simpa using hi)]

/-- An item joining the list of a key the map holds adds one pair. -/
theorem pairs_modify_perm {m : List (κ × List α)} (hnd : (m.map Prod.fst).Nodup) {k : κ}
    (hk : k ∈ m.map Prod.fst) (x : α) :
    (pairs (modify m k (· ++ [x]))).Perm (pairs m ++ [(k, x)]) := by
  induction m with
  | nil => cases hk
  | cons e m ih =>
    rw [List.map_cons, List.nodup_cons] at hnd
    rw [modify_cons, pairs_cons, pairs_cons, List.append_assoc]
    by_cases he : e.1 = k
    · -- the head holds `k`; the rest of the map does not
      subst he
      rw [if_pos rfl, modify_of_not_mem _ hnd.1]
      dsimp only
      rw [List.map_append, List.map_singleton, List.append_assoc]
      exact List.perm_append_comm.append_left _
    · rw [if_neg he]
      have hk' : k ∈ m.map Prod.fst := by
        rcases List.mem_cons.mp hk with h | h
        · exact absurd h.symm he
        · exact h
      exact (ih hnd.2 hk').append_left _

end Assoc
