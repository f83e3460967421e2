import Mathlib.Tactic

/-!
# Library — first occurrences

A list read from the left into another one that takes each value once.

* `addNew`, `firsts`: one value, and the whole list.
* `firsts_eq_self_iff`: nothing is left out just when nothing occurs twice.
* `addKey`, `firstsBy`: the same, of values with a key; `mem_firstsBy`: what is kept.
-/

namespace Dedup

variable {α : Type*} [DecidableEq α]

/-- `x` at the end, unless it is there. -/
def addNew (seen : List α) (x : α) : List α :=
  if x ∈ seen then seen else seen ++ [x]

/-- The first occurrences of a list, in order. -/
def firsts (xs : List α) : List α :=
  xs.foldl addNew []

theorem firsts_append (xs ys : List α) : firsts (xs ++ ys) = ys.foldl addNew (firsts xs) :=
  List.foldl_append

theorem nodup_addNew {seen : List α} (h : seen.Nodup) (x : α) : (addNew seen x).Nodup := by
  rw [addNew]
  split
  · exact h
  · exact h.append (List.nodup_singleton x) (by simpa using ‹x ∉ seen›)

theorem nodup_firsts (xs : List α) : (firsts xs).Nodup := by
  induction xs using List.reverseRecOn with
  | nil => exact List.nodup_nil
  | append_singleton xs x ih =>
      rw [firsts_append]
      exact nodup_addNew ih x

/-- **Nothing is left out** just when nothing occurs twice. -/
theorem firsts_eq_self_iff {xs : List α} : firsts xs = xs ↔ xs.Nodup := by
  refine ⟨?_, ?_⟩
  · intro h
    rw [← h]
    exact nodup_firsts xs
  · intro h
    induction xs using List.reverseRecOn with
    | nil => rfl
    | append_singleton xs x ih =>
        obtain ⟨hxs, -, hdisjoint⟩ := List.nodup_append.mp h
        have hx : x ∉ xs := fun hmem => hdisjoint x hmem x (List.mem_singleton_self x) rfl
        rw [firsts_append, ih hxs]
        exact if_neg hx

/-! ### By a key -/

variable {β κ : Type*} [DecidableEq κ] {key : β → κ}

/-- `x` at the end, unless its key is there. -/
def addKey (key : β → κ) (seen : List β) (x : β) : List β :=
  if seen.any fun y => key y = key x then seen else seen ++ [x]

/-- The first values of each key, in order. -/
def firstsBy (key : β → κ) (xs : List β) : List β :=
  xs.foldl (addKey key) []

theorem firstsBy_append (xs ys : List β) :
    firstsBy key (xs ++ ys) = ys.foldl (addKey key) (firstsBy key xs) :=
  List.foldl_append

/-- What is kept of a key is found first. -/
theorem find?_firstsBy (xs : List β) (k : κ) :
    (firstsBy key xs).find? (fun y => key y = k) = xs.find? fun y => key y = k := by
  induction xs using List.reverseRecOn with
  | nil => rfl
  | append_singleton xs x ih =>
      rw [firstsBy_append, List.foldl_cons, List.foldl_nil, addKey, List.find?_append]
      split
      · rename_i hany
        obtain ⟨y, hy, hkey⟩ := List.any_eq_true.mp hany
        by_cases hk : key x = k
        · have hfound : (firstsBy key xs).find? (fun y => key y = k) ≠ none := fun hnone =>
            List.find?_eq_none.mp hnone y hy (decide_eq_true ((of_decide_eq_true hkey).trans hk))
          rw [ih] at hfound ⊢
          exact (Option.or_of_isSome (Option.isSome_iff_ne_none.mpr hfound)).symm
        · rw [ih, List.find?_cons_of_neg (by simpa using hk), List.find?_nil, Option.or_none]
      · rw [List.find?_append, ih]

theorem nodup_firstsBy (xs : List β) : ((firstsBy key xs).map key).Nodup := by
  induction xs using List.reverseRecOn with
  | nil => exact List.nodup_nil
  | append_singleton xs x ih =>
      rw [firstsBy_append, List.foldl_cons, List.foldl_nil, addKey]
      split
      · exact ih
      · rename_i hany
        rw [List.map_append, List.map_singleton]
        refine ih.append (List.nodup_singleton _) fun k hk hk' => hany ?_
        obtain ⟨y, hy, rfl⟩ := List.mem_map.mp hk
        exact List.any_eq_true.mpr ⟨y, hy, decide_eq_true (List.mem_singleton.mp hk')⟩

/-- Of distinct keys everything is kept. -/
theorem firstsBy_eq_self {xs : List β} (h : (xs.map key).Nodup) : firstsBy key xs = xs := by
  induction xs using List.reverseRecOn with
  | nil => rfl
  | append_singleton xs x ih =>
      rw [List.map_append, List.map_singleton] at h
      obtain ⟨hxs, -, hdisjoint⟩ := List.nodup_append.mp h
      have hnew : ¬ (xs.any fun y => key y = key x) = true := by
        intro hany
        obtain ⟨y, hy, hkey⟩ := List.any_eq_true.mp hany
        exact hdisjoint _ (List.mem_map_of_mem hy) _ (List.mem_singleton_self _)
          (of_decide_eq_true hkey)
      rw [firstsBy_append, ih hxs]
      exact if_neg hnew

/-- **What is kept** is the first of its key. -/
theorem mem_firstsBy {xs : List β} {x : β} :
    x ∈ firstsBy key xs ↔ xs.find? (fun y => key y = key x) = some x := by
  rw [← find?_firstsBy]
  refine ⟨?_, ?_⟩
  · intro hx
    cases hfind : (firstsBy key xs).find? fun y => key y = key x with
    | none => exact (List.find?_eq_none.mp hfind x hx (decide_eq_true rfl)).elim
    | some y =>
        have hkey : key y = key x := by simpa using List.find?_some hfind
        have hy := List.mem_of_find?_eq_some hfind
        rw [List.inj_on_of_nodup_map (nodup_firstsBy xs) hy hx hkey]
  · exact List.mem_of_find?_eq_some

/-- Of each key there is something kept. -/
theorem exists_mem_firstsBy {xs : List β} {x : β} (h : x ∈ xs) :
    ∃ y ∈ firstsBy key xs, key y = key x := by
  have hfound : (firstsBy key xs).find? (fun y => key y = key x) ≠ none := by
    rw [find?_firstsBy]
    exact fun hnone => List.find?_eq_none.mp hnone x h (decide_eq_true rfl)
  obtain ⟨y, hy⟩ := Option.ne_none_iff_exists'.mp hfound
  exact ⟨y, List.mem_of_find?_eq_some hy, by simpa using List.find?_some hy⟩

end Dedup
