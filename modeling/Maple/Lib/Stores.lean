import Maple.Lib.Fuel

/-!
# Maple.Lib.Stores

**What an array holds after a sequence of stores.** `storeAll pool ws` stores the value
of every pair at its index, in order; it fails at the first index that is not below the
size. Afterwards an index holds the value of the last store at it, or what it held
before.
-/

namespace Maple.Lib

variable {α : Type*} {n : Nat}

/-- An index that is not below the size of its array. -/
inductive OutOfRange where
  | at (index : Nat)
  deriving DecidableEq, Repr

/-- A checked store. -/
def store (pool : Vector α n) (i : Nat) (x : α) : Except OutOfRange (Vector α n) :=
  if h : i < n then .ok (pool.set i x h) else .error (.at i)

/-- A sequence of stores. -/
def storeAll (pool : Vector α n) (ws : List (Nat × α)) : Except OutOfRange (Vector α n) :=
  ws.foldlM (fun pool w => store pool w.1 w.2) pool

/-- The last store at the index has this value. -/
def LastStore (ws : List (Nat × α)) (i : Nat) (x : α) : Prop :=
  ∃ before after, ws = before ++ (i, x) :: after ∧ ∀ w ∈ after, w.1 ≠ i

/-- The index holds this value after the stores. -/
def Holds (pool : Vector α n) (ws : List (Nat × α)) (i : Nat) (x : α) : Prop :=
  LastStore ws i x ∨ (∀ w ∈ ws, w.1 ≠ i) ∧ pool[i]? = some x

theorem store_of_lt (pool : Vector α n) {i : Nat} (x : α) (hi : i < n) :
    store pool i x = .ok (pool.set i x hi) :=
  dif_pos hi

theorem lt_of_store {pool pool' : Vector α n} {i : Nat} {x : α} (h : store pool i x = .ok pool') :
    i < n := by
  by_contra hi
  exact nomatch (dif_neg hi).symm.trans h

theorem getElem?_store {pool pool' : Vector α n} {i : Nat} {x : α}
    (h : store pool i x = .ok pool') (j : Nat) :
    pool'[j]? = if j = i then some x else pool[j]? := by
  have hi := lt_of_store h
  obtain rfl := Except.ok.inj ((store_of_lt pool x hi).symm.trans h)
  rw [Vector.getElem?_set]
  split
  next heq => rw [if_pos heq.symm]
  next hne => rw [if_neg (Ne.symm hne)]

theorem storeAll_cons (pool : Vector α n) (w : Nat × α) (ws : List (Nat × α)) :
    storeAll pool (w :: ws) = (store pool w.1 w.2).bind (storeAll · ws) := rfl

theorem storeAll_cons_ok {pool mid : Vector α n} {w : Nat × α} {ws : List (Nat × α)}
    (h : store pool w.1 w.2 = .ok mid) : storeAll pool (w :: ws) = storeAll mid ws :=
  foldlM_cons_ok h

theorem storeAll_append (pool : Vector α n) (ws ws' : List (Nat × α)) :
    storeAll pool (ws ++ ws') = (storeAll pool ws).bind (storeAll · ws') :=
  List.foldlM_append

/-- The stores succeed if and only if every index is below the size. -/
theorem storeAll_ok_iff (pool : Vector α n) {ws : List (Nat × α)} :
    (∃ pool', storeAll pool ws = .ok pool') ↔ ∀ w ∈ ws, w.1 < n := by
  induction ws generalizing pool with
  | nil => exact iff_of_true ⟨pool, rfl⟩ fun w hw => absurd hw List.not_mem_nil
  | cons w ws ih =>
      rw [List.forall_mem_cons, storeAll_cons]
      constructor
      · intro hstored
        obtain ⟨pool', h⟩ := hstored
        obtain ⟨mid, hmid, hrest⟩ := bind_eq_ok h
        exact ⟨lt_of_store hmid, (ih mid).mp ⟨pool', hrest⟩⟩
      · intro hall
        obtain ⟨hw, hws⟩ := hall
        rw [store_of_lt pool w.2 hw]
        exact (ih _).mpr hws

/-! ### The last store -/

theorem lastStore_cons {w : Nat × α} {ws : List (Nat × α)} {i : Nat} {x : α} :
    LastStore (w :: ws) i x ↔ LastStore ws i x ∨ (∀ v ∈ ws, v.1 ≠ i) ∧ w = (i, x) := by
  constructor
  · intro hlast
    obtain ⟨before, after, heq, hafter⟩ := hlast
    cases List.cons_eq_append_iff.mp heq with
    | inl hfirst =>
        obtain ⟨rfl, rfl⟩ := List.cons.inj hfirst.2
        exact .inr ⟨hafter, rfl⟩
    | inr hlater =>
        obtain ⟨before, -, rfl⟩ := hlater
        exact .inl ⟨before, after, rfl, hafter⟩
  · intro hlast
    cases hlast with
    | inl hlast =>
        obtain ⟨before, after, rfl, hafter⟩ := hlast
        exact ⟨w :: before, after, rfl, hafter⟩
    | inr hlast =>
        obtain ⟨hafter, rfl⟩ := hlast
        exact ⟨[], ws, rfl, hafter⟩

theorem lastStore_append {front back : List (Nat × α)} {i : Nat} {x : α} :
    LastStore (front ++ back) i x ↔
      LastStore back i x ∨ (∀ v ∈ back, v.1 ≠ i) ∧ LastStore front i x := by
  induction front with
  | nil =>
      have hnil : ¬ LastStore ([] : List (Nat × α)) i x := by simp [LastStore]
      rw [List.nil_append, or_iff_left fun h => hnil h.2]
  | cons w front ih =>
      rw [List.cons_append, lastStore_cons, lastStore_cons, ih, List.forall_mem_append]
      tauto

theorem lastStore_mem {ws : List (Nat × α)} {i : Nat} {x : α} (h : LastStore ws i x) :
    (i, x) ∈ ws := by
  obtain ⟨before, after, rfl, -⟩ := h
  simp

/-- Where no index is stored at twice, every store is the last one at its index. -/
theorem lastStore_of_nodup {ws : List (Nat × α)} (h : (ws.map Prod.fst).Nodup) {i : Nat} {x : α}
    (hmem : (i, x) ∈ ws) : LastStore ws i x := by
  obtain ⟨before, after, rfl⟩ := List.append_of_mem hmem
  rw [List.map_append, List.map_cons] at h
  have hafter := (List.nodup_cons.mp (List.nodup_append.mp h).2.1).1
  refine ⟨before, after, rfl, fun w hw heq => hafter ?_⟩
  exact List.mem_map.mpr ⟨w, hw, heq⟩

/-- The content of an array after stores that succeed. -/
theorem getElem?_storeAll {pool pool' : Vector α n} {ws : List (Nat × α)}
    (h : storeAll pool ws = .ok pool') {i : Nat} {x : α} :
    pool'[i]? = some x ↔ Holds pool ws i x := by
  induction ws generalizing pool with
  | nil =>
      obtain rfl := Except.ok.inj h
      simp [Holds, LastStore]
  | cons w ws ih =>
      obtain ⟨mid, hmid, hrest⟩ := bind_eq_ok h
      rw [ih hrest, Holds, Holds, lastStore_cons, getElem?_store hmid, List.forall_mem_cons,
        or_assoc]
      refine or_congr_right ?_
      by_cases hi : i = w.1
      · rw [if_pos hi]
        constructor
        · intro hinit
          obtain ⟨hws, hx⟩ := hinit
          exact .inl ⟨hws, Prod.ext hi.symm (Option.some.inj hx)⟩
        · intro hstored
          cases hstored with
          | inl hlast => exact ⟨hlast.1, congrArg some (congrArg Prod.snd hlast.2)⟩
          | inr hinit => exact absurd hi.symm hinit.1.1
      · rw [if_neg hi]
        constructor
        · exact fun ⟨hws, hx⟩ => .inr ⟨⟨Ne.symm hi, hws⟩, hx⟩
        · intro hstored
          cases hstored with
          | inl hlast => exact absurd (congrArg Prod.fst hlast.2).symm hi
          | inr hinit => exact ⟨hinit.1.2, hinit.2⟩

end Maple.Lib
