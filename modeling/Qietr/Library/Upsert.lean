import Mathlib.Tactic

/-!
# Library — upserts

A table with a primary key, written by `INSERT … ON CONFLICT (key) DO UPDATE`: a row whose key is
there is merged into the one that has it.

* `upsert key merge rows row`: the statement; `lookup key rows k`: the row of a key.
* `lookup_upsert`, `lookup_foldl`: what one statement and what many do to the row of a key.
* `nodup_foldl`: the keys stay distinct; `lookup_foldl_first`: where the first row of a key stays.
* `Joins key merge P`: among the rows that satisfy `P` the merge is a join.
* `lookup_eq_of_same`, `perm_of_same`: then the rows depend on what was written, and not on the
  order in which, or how often.
-/

namespace Upsert

variable {ρ κ : Type*} [DecidableEq κ]

/-- A row is merged into the one of its key, or added. -/
def upsert (key : ρ → κ) (merge : ρ → ρ → ρ) (rows : List ρ) (row : ρ) : List ρ :=
  if rows.any fun r => key r = key row then
    rows.map fun r => if key r = key row then merge r row else r
  else rows ++ [row]

/-- The row of a key. -/
def lookup (key : ρ → κ) (rows : List ρ) (k : κ) : Option ρ :=
  rows.find? fun r => key r = k

/-- What becomes of a row when another of its key is written. -/
def mergeInto (merge : ρ → ρ → ρ) : Option ρ → ρ → ρ
  | none, row => row
  | some r, row => merge r row

/-- A merge leaves the key. -/
def KeepsKey (key : ρ → κ) (merge : ρ → ρ → ρ) : Prop :=
  ∀ r row, key r = key row → key (merge r row) = key row

variable {key : ρ → κ} {merge : ρ → ρ → ρ} {rows xs ys : List ρ} {row : ρ} {k : κ}

theorem key_of_lookup {r : ρ} (h : lookup key rows k = some r) : key r = k := by
  simpa using List.find?_some h

theorem mem_of_lookup {r : ρ} (h : lookup key rows k = some r) : r ∈ rows :=
  List.mem_of_find?_eq_some h

theorem lookup_eq_none : lookup key rows k = none ↔ k ∉ rows.map key := by
  rw [lookup, List.find?_eq_none, List.mem_map]
  simp only [decide_eq_true_eq, not_exists, not_and]

/-- Whether there is a row of a key. -/
theorem isSome_lookup : (lookup key rows k).isSome = true ↔ k ∈ rows.map key := by
  rw [← Option.ne_none_iff_isSome, ne_eq, lookup_eq_none, not_not]

theorem any_key_iff : (rows.any fun r => key r = key row) = true ↔ key row ∈ rows.map key := by
  rw [List.any_eq_true, List.mem_map]
  simp only [decide_eq_true_eq]

/-- With distinct keys, a row that is there is the row of its key. -/
theorem lookup_eq_some {r : ρ} (h : (rows.map key).Nodup) :
    lookup key rows k = some r ↔ r ∈ rows ∧ key r = k := by
  refine ⟨fun hr => ⟨mem_of_lookup hr, key_of_lookup hr⟩, ?_⟩
  rintro ⟨hr, rfl⟩
  have hin : key r ∈ rows.map key := List.mem_map_of_mem hr
  obtain ⟨r', hr'⟩ := Option.isSome_iff_exists.mp (isSome_lookup.mpr hin)
  rw [hr', List.inj_on_of_nodup_map h (mem_of_lookup hr') hr (key_of_lookup hr')]

/-- Tables with the same row of each key are the same, up to order. -/
theorem perm_of_lookup {rows' : List ρ} (h : (rows.map key).Nodup) (h' : (rows'.map key).Nodup)
    (hsame : ∀ k, lookup key rows k = lookup key rows' k) : rows.Perm rows' := by
  rw [List.perm_ext_iff_of_nodup h.of_map h'.of_map]
  intro r
  have hmem := lookup_eq_some (k := key r) (r := r) h
  have hmem' := lookup_eq_some (k := key r) (r := r) h'
  rw [hsame, hmem'] at hmem
  simpa using hmem.symm

/-! ### One statement -/

/-- The row with its merge, by its key. -/
theorem key_merged (h : KeepsKey key merge) (r : ρ) :
    key (if key r = key row then merge r row else r) = key r := by
  split
  case isTrue heq => exact (h r row heq).trans heq.symm
  case isFalse => rfl

/-- **What a statement does** to the row of each key. -/
theorem lookup_upsert (h : KeepsKey key merge) (rows : List ρ) (row : ρ) (k : κ) :
    lookup key (upsert key merge rows row) k =
      if key row = k then some (mergeInto merge (lookup key rows k) row) else
        lookup key rows k := by
  rw [upsert]
  split
  case isTrue hany =>
    have hfind : lookup key (rows.map fun r => if key r = key row then merge r row else r) k =
        (lookup key rows k).map fun r => if key r = key row then merge r row else r := by
      rw [lookup, List.find?_map, lookup]
      congr 2
      funext r
      rw [Function.comp_apply, key_merged h]
    rw [hfind]
    cases hrow : lookup key rows k with
    | none =>
        have hne : key row ≠ k := by
          rintro rfl
          exact lookup_eq_none.mp hrow (any_key_iff.mp hany)
        rw [if_neg hne, Option.map_none]
    | some r =>
        have hkey : key r = k := key_of_lookup hrow
        rw [Option.map_some, hkey, mergeInto]
        by_cases hk : key row = k
        · rw [if_pos hk, if_pos hk.symm]
        · rw [if_neg hk, if_neg (Ne.symm hk)]
  case isFalse hany =>
    rw [any_key_iff] at hany
    rw [lookup, List.find?_append, ← lookup]
    by_cases hk : key row = k
    · subst hk
      rw [if_pos rfl, lookup_eq_none.mpr hany, Option.none_or,
        List.find?_cons_of_pos (by simp), mergeInto]
    · rw [if_neg hk, List.find?_cons_of_neg (by simpa using hk), List.find?_nil, Option.or_none]

theorem keys_upsert (h : KeepsKey key merge) (rows : List ρ) (row : ρ) :
    (upsert key merge rows row).map key =
      if key row ∈ rows.map key then rows.map key else rows.map key ++ [key row] := by
  rw [upsert]
  split
  case isTrue hany =>
    rw [if_pos (any_key_iff.mp hany), List.map_map]
    exact List.map_congr_left fun r _ => key_merged h r
  case isFalse hany =>
    rw [if_neg fun hmem => hany (any_key_iff.mpr hmem), List.map_append, List.map_singleton]

theorem nodup_upsert (h : KeepsKey key merge) (hrows : (rows.map key).Nodup) :
    ((upsert key merge rows row).map key).Nodup := by
  rw [keys_upsert h]
  split
  case isTrue => exact hrows
  case isFalse hnew =>
    exact hrows.append (List.nodup_singleton _) (List.disjoint_singleton.mpr hnew)

/-- What all keys have. -/
theorem forall_key_upsert {Q : κ → Prop} (h : KeepsKey key merge) (hrows : ∀ r ∈ rows, Q (key r))
    (hrow : Q (key row)) : ∀ r ∈ upsert key merge rows row, Q (key r) := by
  intro r hr
  have hk := List.mem_map_of_mem (f := key) hr
  rw [keys_upsert h] at hk
  split at hk
  case isTrue =>
    obtain ⟨r₀, hr₀, hkey⟩ := List.mem_map.mp hk
    exact hkey ▸ hrows r₀ hr₀
  case isFalse =>
    rcases List.mem_append.mp hk with hk | hk
    · obtain ⟨r₀, hr₀, hkey⟩ := List.mem_map.mp hk
      exact hkey ▸ hrows r₀ hr₀
    · exact List.mem_singleton.mp hk ▸ hrow

/-- A view of the rows that the merge respects. -/
theorem map_upsert {σ : Type*} {key' : σ → κ} {merge' : σ → σ → σ} {f : ρ → σ}
    (hkey : ∀ r, key' (f r) = key r)
    (hmerge : ∀ a b, key a = key b → f (merge a b) = merge' (f a) (f b)) :
    (upsert key merge rows row).map f = upsert key' merge' (rows.map f) (f row) := by
  have hany : ((rows.map f).any fun r => key' r = key' (f row)) =
      rows.any fun r => key r = key row := by
    rw [List.any_map]
    congr 1
    funext r
    rw [Function.comp_apply, hkey, hkey]
  rw [upsert, upsert, hany]
  split
  · rw [List.map_map, List.map_map]
    refine List.map_congr_left fun r _ => ?_
    rw [Function.comp_apply, Function.comp_apply, hkey, hkey]
    split
    case isTrue h => exact hmerge r row h
    case isFalse => rfl
  · rw [List.map_append, List.map_singleton]

/-! ### Many statements -/

/-- The row of a key after each of the rows `xs` of that key has been written. -/
def rowAfter (key : ρ → κ) (merge : ρ → ρ → ρ) (k : κ) (o : Option ρ) (row : ρ) : Option ρ :=
  if key row = k then some (mergeInto merge o row) else o

/-- **Many**: only the rows of a key matter to it. -/
theorem lookup_foldl (h : KeepsKey key merge) (xs rows : List ρ) (k : κ) :
    lookup key (xs.foldl (upsert key merge) rows) k =
      xs.foldl (rowAfter key merge k) (lookup key rows k) := by
  induction xs generalizing rows with
  | nil => rfl
  | cons x xs ih =>
      rw [List.foldl_cons, ih, lookup_upsert h]
      rfl

theorem map_foldl_upsert {σ : Type*} {key' : σ → κ} {merge' : σ → σ → σ} {f : ρ → σ}
    (hkey : ∀ r, key' (f r) = key r)
    (hmerge : ∀ a b, key a = key b → f (merge a b) = merge' (f a) (f b)) (xs rows : List ρ) :
    (xs.foldl (upsert key merge) rows).map f =
      (xs.map f).foldl (upsert key' merge') (rows.map f) := by
  induction xs generalizing rows with
  | nil => rfl
  | cons x xs ih => rw [List.foldl_cons, ih, map_upsert hkey hmerge, List.map_cons, List.foldl_cons]

theorem nodup_foldl (h : KeepsKey key merge) (hrows : (rows.map key).Nodup) (xs : List ρ) :
    ((xs.foldl (upsert key merge) rows).map key).Nodup := by
  induction xs generalizing rows with
  | nil => exact hrows
  | cons x xs ih => exact ih (nodup_upsert h hrows)

/-- The keys are those that there were and those that were written. -/
theorem mem_keys_foldl (h : KeepsKey key merge) (xs rows : List ρ) (k : κ) :
    k ∈ (xs.foldl (upsert key merge) rows).map key ↔ k ∈ rows.map key ∨ k ∈ xs.map key := by
  induction xs generalizing rows with
  | nil => simp
  | cons x xs ih =>
      rw [List.foldl_cons, ih, keys_upsert h, List.map_cons, List.mem_cons]
      split
      case isTrue hmem =>
        constructor
        · rintro (hk | hk)
          · exact .inl hk
          · exact .inr (.inr hk)
        · rintro (hk | rfl | hk)
          · exact .inl hk
          · exact .inl hmem
          · exact .inr hk
      case isFalse => simp only [List.mem_append, List.mem_singleton, or_assoc]

/-- Where a row that is there stays, it is the first of its key. -/
theorem lookup_foldl_first (h : ∀ old row, merge old row = old) (xs : List ρ) (k : κ) :
    lookup key (xs.foldl (upsert key merge) []) k = xs.find? fun x => key x = k := by
  have hfold : ∀ o : Option ρ, xs.foldl (rowAfter key merge k) o =
      o.or (xs.find? fun x => key x = k) := by
    induction xs with
    | nil => exact fun o => Option.or_none.symm
    | cons x xs ih =>
        intro o
        rw [List.foldl_cons, ih, rowAfter]
        by_cases hk : key x = k
        · rw [if_pos hk, List.find?_cons_of_pos (by simpa using hk)]
          cases o with
          | none => rfl
          | some r => rw [mergeInto, h, Option.some_or, Option.some_or]
        · rw [if_neg hk, List.find?_cons_of_neg (by simpa using hk)]
  have hkeeps : KeepsKey key merge := fun r row hk => by rw [h, hk]
  rw [lookup_foldl hkeeps]
  exact hfold none

/-! ### Joins -/

/-- Among the rows that satisfy `P`, those of one key are merged to their least upper bound. -/
structure Joins (key : ρ → κ) (merge : ρ → ρ → ρ) (P : ρ → Prop) : Prop where
  keeps : KeepsKey key merge
  closed : ∀ a b, P a → P b → key a = key b → P (merge a b)
  comm : ∀ a b, P a → P b → key a = key b → merge a b = merge b a
  assoc : ∀ a b c, P a → P b → P c → key a = key b → key b = key c →
    merge (merge a b) c = merge a (merge b c)
  idem : ∀ a, P a → merge a a = a

/-- `m` is the least row that has all of `xs` merged into it. -/
structure IsJoin (key : ρ → κ) (merge : ρ → ρ → ρ) (P : ρ → Prop) (k : κ) (xs : List ρ) (m : ρ) :
    Prop where
  nonempty : xs ≠ []
  key_eq : key m = k
  valid : P m
  upper : ∀ x ∈ xs, merge m x = m
  least : ∀ c, P c → key c = k → (∀ x ∈ xs, merge c x = c) → merge c m = c

variable {P : ρ → Prop} {m m' x : ρ}

omit [DecidableEq κ] in
theorem IsJoin.unique (h : Joins key merge P) (hxs : ∀ x, x ∈ xs ↔ x ∈ ys)
    (hm : IsJoin key merge P k xs m) (hm' : IsJoin key merge P k ys m') : m = m' := by
  have hle : merge m m' = m :=
    hm'.least m hm.valid hm.key_eq fun x hx => hm.upper x ((hxs x).mpr hx)
  have hge : merge m' m = m' :=
    hm.least m' hm'.valid hm'.key_eq fun x hx => hm'.upper x ((hxs x).mp hx)
  rw [← hle, h.comm m m' hm.valid hm'.valid (hm.key_eq.trans hm'.key_eq.symm), hge]

omit [DecidableEq κ] in
theorem IsJoin.single (h : Joins key merge P) (hx : P x) (hk : key x = k) :
    IsJoin key merge P k [x] x where
  nonempty := List.cons_ne_nil x []
  key_eq := hk
  valid := hx
  upper y hy := by rw [List.mem_singleton.mp hy, h.idem x hx]
  least c _ _ hc := hc x (List.mem_singleton_self x)

omit [DecidableEq κ] in
/-- One more row. -/
theorem IsJoin.snoc (h : Joins key merge P) (hm : IsJoin key merge P k xs m)
    (hxs : ∀ y ∈ xs, P y ∧ key y = k) (hx : P x) (hk : key x = k) :
    IsJoin key merge P k (xs ++ [x]) (merge m x) where
  nonempty := by simp
  key_eq := (h.keeps m x (hm.key_eq.trans hk.symm)).trans hk
  valid := h.closed m x hm.valid hx (hm.key_eq.trans hk.symm)
  upper y hy := by
    have hmx := hm.key_eq.trans hk.symm
    rcases List.mem_append.mp hy with hy | hy
    · obtain ⟨hPy, hky⟩ := hxs y hy
      calc merge (merge m x) y = merge m (merge x y) :=
            h.assoc m x y hm.valid hx hPy hmx (hk.trans hky.symm)
        _ = merge m (merge y x) := by rw [h.comm x y hx hPy (hk.trans hky.symm)]
        _ = merge (merge m y) x :=
            (h.assoc m y x hm.valid hPy hx (hm.key_eq.trans hky.symm) (hky.trans hk.symm)).symm
        _ = merge m x := by rw [hm.upper y hy]
    · rw [List.mem_singleton.mp hy, h.assoc m x x hm.valid hx hx hmx rfl, h.idem x hx]
  least c hc hkc hupper := by
    have hcm := hm.least c hc hkc fun y hy => hupper y (List.mem_append_left _ hy)
    have hcx := hupper x (List.mem_append_right _ (List.mem_singleton_self x))
    rw [← h.assoc c m x hc hm.valid hx (hkc.trans hm.key_eq.symm) (hm.key_eq.trans hk.symm), hcm,
      hcx]

/-- **The row of a key** is the join of those that were written. -/
theorem rowAfter_foldl (h : Joins key merge P) (hxs : ∀ x ∈ xs, P x) (k : κ) :
    match xs.foldl (rowAfter key merge k) none with
    | none => ∀ x ∈ xs, key x ≠ k
    | some m => IsJoin key merge P k (xs.filter fun x => key x = k) m := by
  induction xs using List.reverseRecOn with
  | nil => exact List.forall_mem_nil _
  | append_singleton xs x ih =>
      have hx : P x := hxs x (List.mem_append_right _ (List.mem_singleton_self x))
      specialize ih fun y hy => hxs y (List.mem_append_left _ hy)
      rw [List.foldl_append, List.foldl_cons, List.foldl_nil, rowAfter, List.filter_append]
      by_cases hk : key x = k
      · rw [if_pos hk, List.filter_cons_of_pos (by simpa using hk), List.filter_nil]
        cases hrow : xs.foldl (rowAfter key merge k) none with
        | none =>
            rw [hrow] at ih
            have hnil : xs.filter (fun x => key x = k) = [] :=
              List.filter_eq_nil_iff.mpr fun y hy => by simpa using ih y hy
            rw [hnil]
            exact .single h hx hk
        | some m =>
            rw [hrow] at ih
            refine ih.snoc h (fun y hy => ?_) hx hk
            rw [List.mem_filter, decide_eq_true_iff] at hy
            exact ⟨hxs y (List.mem_append_left _ hy.1), hy.2⟩
      · rw [if_neg hk, List.filter_cons_of_neg (by simpa using hk), List.filter_nil,
          List.append_nil]
        cases hrow : xs.foldl (rowAfter key merge k) none with
        | none =>
            rw [hrow] at ih
            intro y hy
            rcases List.mem_append.mp hy with hy | hy
            · exact ih y hy
            · rw [List.mem_singleton.mp hy]
              exact hk
        | some m =>
            rw [hrow] at ih
            exact ih

/-- **Neither order nor repetition matters**: tables to which the same rows of a key were written
have the same row of it. -/
theorem lookup_eq_of_same (h : Joins key merge P) (hxs : ∀ x ∈ xs, P x) (hys : ∀ y ∈ ys, P y)
    (hsame : ∀ x, key x = k → (x ∈ xs ↔ x ∈ ys)) :
    lookup key (xs.foldl (upsert key merge) []) k =
      lookup key (ys.foldl (upsert key merge) []) k := by
  have hmem : ∀ x, x ∈ xs.filter (fun x => key x = k) ↔ x ∈ ys.filter (fun x => key x = k) := by
    intro x
    simp only [List.mem_filter, decide_eq_true_eq]
    exact ⟨fun hx => ⟨(hsame x hx.2).mp hx.1, hx.2⟩, fun hx => ⟨(hsame x hx.2).mpr hx.1, hx.2⟩⟩
  have hx := rowAfter_foldl h hxs k
  have hy := rowAfter_foldl h hys k
  rw [lookup_foldl h.keeps, lookup_foldl h.keeps]
  show xs.foldl (rowAfter key merge k) none = ys.foldl (rowAfter key merge k) none
  cases hxrow : xs.foldl (rowAfter key merge k) none with
  | none =>
      rw [hxrow] at hx
      cases hyrow : ys.foldl (rowAfter key merge k) none with
      | none => rfl
      | some m =>
          rw [hyrow] at hy
          obtain ⟨y, hy⟩ := List.exists_mem_of_ne_nil _ hy.nonempty
          obtain ⟨hin, hk⟩ := List.mem_filter.mp ((hmem y).mpr hy)
          exact absurd (of_decide_eq_true hk) (hx y hin)
  | some m =>
      rw [hxrow] at hx
      cases hyrow : ys.foldl (rowAfter key merge k) none with
      | none =>
          rw [hyrow] at hy
          obtain ⟨x, hx⟩ := List.exists_mem_of_ne_nil _ hx.nonempty
          obtain ⟨hin, hk⟩ := List.mem_filter.mp ((hmem x).mp hx)
          exact absurd (of_decide_eq_true hk) (hy x hin)
      | some m' =>
          rw [hyrow] at hy
          rw [hx.unique h hmem hy]

theorem perm_of_same (h : Joins key merge P) (hxs : ∀ x ∈ xs, P x) (hys : ∀ y ∈ ys, P y)
    (hsame : ∀ x, x ∈ xs ↔ x ∈ ys) :
    (xs.foldl (upsert key merge) []).Perm (ys.foldl (upsert key merge) []) := by
  have hnil : (([] : List ρ).map key).Nodup := List.nodup_nil
  exact perm_of_lookup (nodup_foldl h.keeps hnil xs) (nodup_foldl h.keeps hnil ys)
    fun _ => lookup_eq_of_same h hxs hys fun x _ => hsame x

end Upsert
