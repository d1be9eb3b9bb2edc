import Mathlib.Data.List.AList
import Mathlib.Algebra.BigOperators.Group.Finset.Basic
import Mathlib.Tactic

/-!
# Finite maps with an explicit iteration order

A hash map is modelled by Mathlib's association lists with distinct keys.  The
order of the entries plays the part of the unspecified iteration order, so a
function that walks a map takes its entries in some order and a theorem about it
has to hold for every such order.
-/

namespace Cosaci.Foundation

/-- A finite map from `κ` to `ν`. -/
abbrev Table (κ ν : Type) := AList (fun _ : κ => ν)

namespace Table

variable {κ ν : Type} [DecidableEq κ]

/-- Keep the entries accepted by a predicate. -/
def retain (keep : κ → ν → Bool) (table : Table κ ν) : Table κ ν where
  entries := table.entries.filter fun entry => keep entry.1 entry.2
  nodupKeys := table.nodupKeys.sublist List.filter_sublist

theorem mem_lookup_retain {keep : κ → ν → Bool} {table : Table κ ν} {key : κ} {value : ν} :
    value ∈ AList.lookup key (table.retain keep) ↔
      value ∈ table.lookup key ∧ keep key value = true := by
  rw [AList.mem_lookup_iff, AList.mem_lookup_iff]
  simp only [retain, List.mem_filter]

@[simp] theorem lookup_retain (keep : κ → ν → Bool) (table : Table κ ν) (key : κ) :
    AList.lookup key (table.retain keep) = (table.lookup key).filter (keep key) := by
  apply Option.ext
  intro value
  rw [← Option.mem_def, mem_lookup_retain, Option.filter_eq_some_iff, Option.mem_def]

/-- Change every value, given its key. -/
def adjust (change : κ → ν → ν) (table : Table κ ν) : Table κ ν where
  entries := table.entries.map fun entry => ⟨entry.1, change entry.1 entry.2⟩
  nodupKeys := by
    rw [List.NodupKeys, List.keys, List.map_map]
    exact table.nodupKeys

omit [DecidableEq κ] in
@[simp] theorem keys_adjust (change : κ → ν → ν) (table : Table κ ν) :
    AList.keys (table.adjust change) = table.keys := by
  simp only [AList.keys, List.keys, adjust, List.map_map]
  rfl

@[simp] theorem lookup_adjust (change : κ → ν → ν) (table : Table κ ν) (key : κ) :
    AList.lookup key (table.adjust change) = (table.lookup key).map (change key) := by
  apply Option.ext
  intro value
  rw [← Option.mem_def, AList.mem_lookup_iff, Option.map_eq_some_iff]
  simp only [adjust, List.mem_map, ← Option.mem_def, AList.mem_lookup_iff]
  constructor
  · rintro ⟨⟨other, before⟩, member, same⟩
    cases same
    exact ⟨before, member, rfl⟩
  · rintro ⟨before, member, rfl⟩
    exact ⟨⟨key, before⟩, member, rfl⟩

/-- Lookup after an insertion, whichever key is asked for. -/
theorem lookup_insert_eq (table : Table κ ν) (key query : κ) (value : ν) :
    AList.lookup query (AList.insert key value table) =
      if query = key then some value else table.lookup query := by
  by_cases same : query = key
  · subst query
    simp
  · simp [same, AList.lookup_insert_ne same]

/-- Insert a sequence of pairs from left to right; a later pair replaces an
earlier one with the same key. -/
def insertAll (table : Table κ ν) (pairs : List (κ × ν)) : Table κ ν :=
  pairs.foldl (fun table pair => table.insert pair.1 pair.2) table

/-- The last value that a sequence of pairs gives to a key. -/
def lastValue (pairs : List (κ × ν)) (key : κ) : Option ν :=
  (pairs.reverse.find? fun pair => pair.1 = key).map Prod.snd

theorem lastValue_cons (pair : κ × ν) (rest : List (κ × ν)) (key : κ) :
    lastValue (pair :: rest) key =
      (lastValue rest key).or (if pair.1 = key then some pair.2 else none) := by
  simp only [lastValue, List.reverse_cons, List.find?_append]
  cases rest.reverse.find? fun pair => pair.1 = key with
  | none => by_cases same : pair.1 = key <;> simp [same]
  | some found => simp

variable {pairs : List (κ × ν)}

/-- A sequence that lists the graph of a partial function gives every key its value. -/
theorem lastValue_eq_of_graph {value : κ → Option ν}
    (graph : ∀ key result, (key, result) ∈ pairs ↔ value key = some result) (key : κ) :
    lastValue pairs key = value key := by
  cases found : pairs.reverse.find? fun pair => pair.1 = key with
  | none =>
      have absent : value key = none := by
        rw [Option.eq_none_iff_forall_ne_some]
        intro result defined
        have listed := List.mem_reverse.mpr ((graph key result).mpr defined)
        exact List.find?_eq_none.mp found (key, result) listed (by simp)
      rw [lastValue, found, absent, Option.map_none]
  | some pair =>
      have same : pair.1 = key := by simpa using List.find?_some found
      have listed := List.mem_reverse.mp (List.mem_of_find?_eq_some found)
      rw [lastValue, found, ← same, (graph pair.1 pair.2).mp listed, Option.map_some]

theorem lookup_insertAll (table : Table κ ν) (pairs : List (κ × ν)) (key : κ) :
    AList.lookup key (table.insertAll pairs) =
      (lastValue pairs key).or (table.lookup key) := by
  induction pairs generalizing table with
  | nil => simp [insertAll, lastValue]
  | cons pair rest ih =>
      rw [insertAll, List.foldl_cons, ← insertAll, ih, lookup_insert_eq, lastValue_cons]
      by_cases same : key = pair.1
      · simp [same]
      · simp [same, Ne.symm same]

/-- Collect a sequence of pairs into a map. -/
def collect (pairs : List (κ × ν)) : Table κ ν :=
  insertAll ∅ pairs

@[simp] theorem lookup_collect (pairs : List (κ × ν)) (key : κ) :
    AList.lookup key (collect pairs) = lastValue pairs key := by
  simp [collect, lookup_insertAll]

theorem mem_collect {key : κ} : key ∈ collect pairs ↔ key ∈ pairs.map Prod.fst := by
  rw [← AList.lookup_isSome, lookup_collect, lastValue, Option.isSome_map, List.find?_isSome]
  simp

/-- The keys whose value satisfies a predicate. -/
def keysWhere (accept : ν → Bool) (table : Table κ ν) : Finset κ :=
  ((table.entries.filter fun entry => accept entry.2).map Sigma.fst).toFinset

@[simp] theorem mem_keysWhere {accept : ν → Bool} {table : Table κ ν} {key : κ} :
    key ∈ table.keysWhere accept ↔
      ∃ value, table.lookup key = some value ∧ accept value = true := by
  simp only [keysWhere, List.mem_toFinset, List.mem_map, List.mem_filter]
  constructor
  · rintro ⟨⟨other, value⟩, ⟨member, accepted⟩, rfl⟩
    exact ⟨value, AList.mem_lookup_iff.mpr member, accepted⟩
  · rintro ⟨value, found, accepted⟩
    exact ⟨⟨key, value⟩, ⟨AList.mem_lookup_iff.mp found, accepted⟩, rfl⟩

/-- A sum over the accepted entries of a map is a sum over its accepted keys. -/
theorem sum_filter_entries (accept : ν → Bool) (table : Table κ ν) (weight : κ → Nat) :
    ((table.entries.filter fun entry => accept entry.2).map
      fun entry => weight entry.1).sum = ∑ key ∈ table.keysWhere accept, weight key := by
  have distinct : ((table.entries.filter fun entry => accept entry.2).map
      Sigma.fst).Nodup :=
    table.keys_nodup.sublist (List.filter_sublist.map Sigma.fst)
  rw [keysWhere, List.sum_toFinset weight distinct, List.map_map]
  rfl

/-- The exact total of the values of a map, as a sum over its keys. -/
theorem sum_values (table : Table κ ν) (weight : ν → Nat) :
    (table.entries.map fun entry => weight entry.2).sum =
      ∑ key ∈ table.keys.toFinset, ((table.lookup key).map weight).getD 0 := by
  rw [List.sum_toFinset _ table.keys_nodup, AList.keys, List.keys, List.map_map]
  congr 1
  apply List.map_congr_left
  intro entry member
  have found : table.lookup entry.1 = some entry.2 := AList.mem_lookup_iff.mpr member
  simp [found]

/-- How often each key occurs in a sequence, in a 32-bit counter. -/
def histogram (keys : List κ) : Table κ UInt32 :=
  keys.foldl (fun counts key => counts.insert key ((counts.lookup key).getD 0 + 1)) ∅

theorem lookup_histogram (keys : List κ) (key : κ) :
    AList.lookup key (histogram keys) =
      if key ∈ keys then some (UInt32.ofNat (keys.count key)) else none := by
  induction keys using List.reverseRecOn with
  | nil => simp [histogram]
  | append_singleton keys last ih =>
      have unfolded : histogram (keys ++ [last]) = (histogram keys).insert last
          (((histogram keys).lookup last).getD 0 + 1) := by
        simp only [histogram, List.foldl_append, List.foldl_cons, List.foldl_nil]
      rw [unfolded, lookup_insert_eq]
      by_cases same : key = last
      · subst key
        by_cases before : last ∈ keys
        · simp [ih, before, List.count_append]
        · simp [ih, before, List.count_append, List.count_eq_zero_of_not_mem before]
      · have other : ¬last = key := fun equal => same equal.symm
        simp [ih, same, other, List.count_append]

end Table

/-! ## Iteration orders -/

/-- A choice of the order in which the entries of each map are visited. -/
structure IterationOrder (κ ν : Type) where
  visit : Table κ ν → List (Sigma fun _ : κ => ν)
  perm : ∀ table, (visit table).Perm table.entries

namespace IterationOrder

variable {κ ν : Type}

/-- The order in which the entries are stored. -/
def stored : IterationOrder κ ν where
  visit := AList.entries
  perm _ := List.Perm.refl _

/-- Visit the entry of one key after all others. -/
def lastly [DecidableEq κ] (key : κ) : IterationOrder κ ν where
  visit table := table.entries.filter (fun entry => !decide (entry.1 = key)) ++
    table.entries.filter fun entry => decide (entry.1 = key)
  perm _ := List.perm_append_comm.trans (List.filter_append_perm _ _)

theorem mem_visit (order : IterationOrder κ ν) [DecidableEq κ] {table : Table κ ν}
    {entry : Sigma fun _ : κ => ν} :
    entry ∈ order.visit table ↔ table.lookup entry.1 = some entry.2 := by
  rw [(order.perm table).mem_iff]
  exact AList.mem_lookup_iff.symm

private theorem filter_key [DecidableEq κ] {entries : List (Sigma fun _ : κ => ν)} {key : κ}
    {value : ν} (distinct : entries.NodupKeys) (member : ⟨key, value⟩ ∈ entries) :
    entries.filter (fun entry => decide (entry.1 = key)) = [⟨key, value⟩] := by
  induction entries with
  | nil => cases member
  | cons entry rest ih =>
      rcases List.nodupKeys_cons.mp distinct with ⟨absent, distinct⟩
      rcases List.mem_cons.mp member with rfl | member
      · have noOther : rest.filter (fun entry => decide (entry.1 = key)) = [] := by
          rw [List.filter_eq_nil_iff]
          intro other present same
          rw [decide_eq_true_eq] at same
          have listed : other.1 ∈ rest.keys := List.mem_keys_of_mem present
          exact absent (same ▸ listed)
        rw [List.filter_cons_of_pos (by simp), noOther]
      · have differs : entry.1 ≠ key := by
          intro same
          exact absent (same ▸ List.mem_keys_of_mem member)
        rw [List.filter_cons_of_neg (by simpa using differs), ih distinct member]

/-- The delayed entry comes last. -/
theorem visit_lastly [DecidableEq κ] {table : Table κ ν} {key : κ} {value : ν}
    (found : table.lookup key = some value) :
    (lastly key).visit table =
      table.entries.filter (fun entry => !decide (entry.1 = key)) ++ [⟨key, value⟩] := by
  have delayed := filter_key table.nodupKeys (AList.mem_lookup_iff.mp found)
  exact congrArg (table.entries.filter (fun entry => !decide (entry.1 = key)) ++ ·) delayed

end IterationOrder

variable {α μ : Type} [LinearOrder μ]

/-- The last element whose measure is maximal. -/
def maxByKey (measure : α → μ) : List α → Option α
  | [] => none
  | first :: rest =>
      some (rest.foldl (fun best next => if measure next < measure best then best else next)
        first)

variable {elements : List α}

/-- Only an empty sequence has no maximum. -/
theorem exists_maxByKey (measure : α → μ) (nonempty : elements ≠ []) :
    ∃ best, maxByKey measure elements = some best := by
  cases elements with
  | nil => exact False.elim (nonempty rfl)
  | cons first rest => exact ⟨_, rfl⟩

private theorem maxByKey_append_singleton (measure : α → μ) (elements : List α) (last : α) :
    maxByKey measure (elements ++ [last]) =
      match maxByKey measure elements with
      | none => some last
      | some best => some (if measure last < measure best then best else last) := by
  cases elements with
  | nil => rfl
  | cons first rest => simp [maxByKey, List.foldl_append]

/-- A maximum is an element, and no other element measures more. -/
theorem maxByKey_spec {measure : α → μ} {best : α} (found : maxByKey measure elements = some best) :
    best ∈ elements ∧ ∀ element ∈ elements, measure element ≤ measure best := by
  induction elements using List.reverseRecOn generalizing best with
  | nil => cases found
  | append_singleton elements last ih =>
      rw [maxByKey_append_singleton] at found
      split at found
      · next none =>
          cases found
          have empty : elements = [] := by
            by_contra nonempty
            rcases exists_maxByKey measure nonempty with ⟨best, some⟩
            rw [none] at some
            cases some
          simp [empty]
      · next earlier some =>
          rcases ih some with ⟨member, maximal⟩
          cases found
          split
          · next smaller =>
              refine ⟨List.mem_append_left _ member, ?_⟩
              intro element present
              rcases List.mem_append.mp present with present | present
              · exact maximal element present
              · rw [List.mem_singleton.mp present]
                exact smaller.le
          · next larger =>
              refine ⟨by simp, ?_⟩
              intro element present
              rcases List.mem_append.mp present with present | present
              · exact (maximal element present).trans (not_lt.mp larger)
              · rw [List.mem_singleton.mp present]

/-- An element that nothing exceeds is the maximum when it comes last. -/
theorem maxByKey_of_last {measure : α → μ} {last : α}
    (maximal : ∀ element ∈ elements, measure element ≤ measure last) :
    maxByKey measure (elements ++ [last]) = some last := by
  rw [maxByKey_append_singleton]
  split
  · rfl
  · next best some =>
      have bound := maximal best (maxByKey_spec some).1
      rw [if_neg (not_lt.mpr bound)]

end Cosaci.Foundation
