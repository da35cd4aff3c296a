import Mathlib.Data.List.Basic

/-!
# Changing the first match of a list

A keyed store that allows duplicate keys answers a key with the first entry
that matches it, and updates that entry only. `updateFirst` is that update on a
list, for any notion of match. A list with a match splits at its first one
(`exists_split_of_find`), and the update changes exactly that element
(`updateFirst_split`). What another key finds first stays (`find_updateFirst`), and
what any key finds is changed exactly if it is that element
(`find_updateFirst_eq`). Two updates of different elements can be exchanged
(`updateFirst_comm`).
-/

set_option autoImplicit false

namespace Omnm

universe u

variable {α : Type u}

/-- Change the first element that matches. -/
def updateFirst (isMatch : α → Bool) (change : α → α) : List α → List α
  | [] => []
  | a :: as => if isMatch a then change a :: as else a :: updateFirst isMatch change as

@[simp] theorem length_updateFirst (isMatch : α → Bool) (change : α → α) (list : List α) :
    (updateFirst isMatch change list).length = list.length := by
  induction list with
  | nil => rfl
  | cons a as ih =>
      rw [updateFirst]
      split
      · rfl
      · rw [List.length_cons, ih, List.length_cons]

/-- A list in which a match is found splits at its first match. -/
theorem exists_split_of_find {isMatch : α → Bool} {list : List α} {found : α}
    (search : list.find? isMatch = some found) :
    ∃ before after, list = before ++ found :: after ∧ isMatch found = true ∧
      ∀ a ∈ before, isMatch a = false := by
  obtain ⟨matching, before, after, split, none⟩ := List.find?_eq_some_iff_append.mp search
  exact ⟨before, after, split, matching, fun a member => by simpa using none a member⟩

theorem find_split {isMatch : α → Bool} {before after : List α} {found : α}
    (matching : isMatch found = true) (none : ∀ a ∈ before, isMatch a = false) :
    (before ++ found :: after).find? isMatch = some found := by
  rw [List.find?_eq_some_iff_append]
  exact ⟨matching, before, after, rfl, fun a member => by simpa using none a member⟩

/-- The update changes the first match and nothing else. -/
theorem updateFirst_split {isMatch : α → Bool} (change : α → α) {before after : List α} {found : α}
    (matching : isMatch found = true) (none : ∀ a ∈ before, isMatch a = false) :
    updateFirst isMatch change (before ++ found :: after) = before ++ change found :: after := by
  induction before with
  | nil => simp only [List.nil_append, updateFirst, matching, if_true]
  | cons a before ih =>
      have here : isMatch a = false := none a (List.mem_cons_self ..)
      have rest := ih fun b member => none b (List.mem_cons_of_mem _ member)
      simp only [List.cons_append, updateFirst, here, Bool.false_eq_true, if_false, rest]

/-- Changing the first match of one test keeps the first match of another, if these are two
elements and the other test does not see the change. -/
theorem find_updateFirst {isMatch other : α → Bool} {change : α → α} {list : List α}
    {first found : α} (matched : list.find? isMatch = some first)
    (search : list.find? other = some found) (differs : first ≠ found)
    (unseen : ∀ a, other (change a) = other a) :
    (updateFirst isMatch change list).find? other = some found := by
  induction list with
  | nil => cases search
  | cons a as ih =>
      rw [updateFirst]
      by_cases here : isMatch a = true
      · rw [List.find?_cons_of_pos here] at matched
        obtain rfl : a = first := Option.some.inj matched
        have later : other a = false := by
          by_contra sees
          rw [List.find?_cons_of_pos (by simpa using sees)] at search
          exact differs (Option.some.inj search)
        rw [List.find?_cons_of_neg (by simpa using later)] at search
        rw [if_pos here, List.find?_cons_of_neg (by rw [unseen]; simpa using later), search]
      · rw [List.find?_cons_of_neg here] at matched
        rw [if_neg here]
        by_cases sees : other a = true
        · rwa [List.find?_cons_of_pos sees] at search ⊢
        · rw [List.find?_cons_of_neg sees] at search ⊢
          exact ih matched search

/-- What a test finds first in an updated list: the changed element, if it found the one that was
changed, and else what it found. -/
theorem find_updateFirst_eq [DecidableEq α] {isMatch other : α → Bool} {change : α → α}
    (unseen : ∀ a, other (change a) = other a) (list : List α) :
    (updateFirst isMatch change list).find? other =
      if list.find? other = list.find? isMatch then (list.find? other).map change
      else list.find? other := by
  induction list with
  | nil => rfl
  | cons a as ih =>
      rw [updateFirst]
      cases here : isMatch a with
      | true =>
          have matched : (a :: as).find? isMatch = some a := List.find?_cons_of_pos here
          rw [if_pos rfl, matched]
          cases sees : other a with
          | true =>
              rw [List.find?_cons_of_pos (by rw [unseen, sees]), List.find?_cons_of_pos sees,
                if_pos rfl, Option.map_some]
          | false =>
              have blind : as.find? other ≠ some a := by
                intro found
                rw [List.find?_some found] at sees
                cases sees
              rw [List.find?_cons_of_neg (by rw [unseen, sees]; simp),
                List.find?_cons_of_neg (by rw [sees]; simp), if_neg blind]
      | false =>
          have later : (a :: as).find? isMatch = as.find? isMatch :=
            List.find?_cons_of_neg (by rw [here]; simp)
          rw [if_neg (by simp), later]
          cases sees : other a with
          | true =>
              have missed : some a ≠ as.find? isMatch := by
                intro found
                rw [List.find?_some found.symm] at here
                cases here
              rw [List.find?_cons_of_pos sees, List.find?_cons_of_pos sees, if_neg missed]
          | false =>
              have behind : (a :: as).find? other = as.find? other :=
                List.find?_cons_of_neg (by rw [sees]; simp)
              rw [List.find?_cons_of_neg (by rw [sees]; simp), ih, behind]

/-- Changes of the first matches of two tests can be exchanged, if these are two elements and
neither test sees the change of the other. -/
theorem updateFirst_comm {isMatch other : α → Bool} {change replace : α → α} {list : List α}
    {first : α} (matched : list.find? isMatch = some first)
    (differs : list.find? other ≠ some first)
    (unseen : ∀ a, other (change a) = other a) (unseenOther : ∀ a, isMatch (replace a) = isMatch a) :
    updateFirst isMatch change (updateFirst other replace list) =
      updateFirst other replace (updateFirst isMatch change list) := by
  induction list with
  | nil => rfl
  | cons a as ih =>
      cases here : isMatch a with
      | true =>
          rw [List.find?_cons_of_pos here] at matched
          obtain rfl : a = first := Option.some.inj matched
          have blind : other a = false := by
            by_contra sees
            exact differs (List.find?_cons_of_pos (by simpa using sees))
          simp only [updateFirst, here, blind, unseen, if_true, Bool.false_eq_true, if_false]
      | false =>
          rw [List.find?_cons_of_neg (by rw [here]; simp)] at matched
          cases sees : other a with
          | true => simp only [updateFirst, here, sees, unseenOther, if_true, Bool.false_eq_true,
              if_false]
          | false =>
              rw [List.find?_cons_of_neg (by rw [sees]; simp)] at differs
              simp only [updateFirst, here, sees, Bool.false_eq_true, if_false, ih matched differs]

/-- The first match is changed where it stands, whatever comes behind the list. -/
theorem updateFirst_append_of_find {isMatch : α → Bool} {change : α → α} {list : List α} {first : α}
    (matched : list.find? isMatch = some first) (behind : List α) :
    updateFirst isMatch change (list ++ behind) = updateFirst isMatch change list ++ behind := by
  obtain ⟨before, after, rfl, matching, none⟩ := exists_split_of_find matched
  rw [List.append_assoc, List.cons_append, updateFirst_split change matching none,
    updateFirst_split change matching none, List.append_assoc, List.cons_append]

/-- Two tests that match each other's first match have the same one. -/
theorem eq_of_find {isMatch other : α → Bool} {list : List α} {first found : α}
    (matched : list.find? isMatch = some first) (search : list.find? other = some found)
    (sees : isMatch found = true) (seen : other first = true) : first = found := by
  induction list with
  | nil => cases matched
  | cons a as ih =>
      by_cases here : isMatch a = true
      · rw [List.find?_cons_of_pos here] at matched
        obtain rfl : a = first := Option.some.inj matched
        rw [List.find?_cons_of_pos seen] at search
        exact Option.some.inj search
      · rw [List.find?_cons_of_neg here] at matched
        by_cases there : other a = true
        · rw [List.find?_cons_of_pos there] at search
          obtain rfl : a = found := Option.some.inj search
          exact absurd sees here
        · rw [List.find?_cons_of_neg there] at search
          exact ih matched search

/-- What does not match is not changed. -/
theorem mem_updateFirst_of_not_match {isMatch : α → Bool} {change : α → α} {list : List α} {a : α}
    (differs : isMatch a = false) (member : a ∈ list) : a ∈ updateFirst isMatch change list := by
  induction list with
  | nil => cases member
  | cons b bs ih =>
      rw [updateFirst]
      rcases List.mem_cons.mp member with rfl | later
      · rw [differs]
        exact List.mem_cons_self ..
      · split
        · exact List.mem_cons_of_mem _ later
        · exact List.mem_cons_of_mem _ (ih later)

theorem mem_updateFirst {isMatch : α → Bool} {change : α → α} {list : List α} {b : α}
    (member : b ∈ updateFirst isMatch change list) :
    b ∈ list ∨ ∃ a ∈ list, isMatch a = true ∧ b = change a := by
  induction list with
  | nil => cases member
  | cons a as ih =>
      by_cases here : isMatch a = true
      · rw [updateFirst, if_pos here, List.mem_cons] at member
        rcases member with changed | later
        · exact .inr ⟨a, List.mem_cons_self .., here, changed⟩
        · exact .inl (List.mem_cons_of_mem _ later)
      · rw [updateFirst, if_neg here, List.mem_cons] at member
        rcases member with same | later
        · exact .inl (same ▸ List.mem_cons_self ..)
        · rcases ih later with old | ⟨c, old, matching, changed⟩
          · exact .inl (List.mem_cons_of_mem _ old)
          · exact .inr ⟨c, List.mem_cons_of_mem _ old, matching, changed⟩

end Omnm
