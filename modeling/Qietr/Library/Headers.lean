import Mathlib.Data.List.DropRight
import Qietr.Library.BigIntText

/-!
# Library — lists of headers

A header is a name and a value. A list of them may hold a name more than once, and two names that
differ in the case of their letters only are the same.

* `values headers name`: what is listed for a name, in its order.
* `fill`: the list of a `Headers` object; `withType`: one for a body of some type.
* `assign`: a property of an object that holds fields, overwritten or added.
* `values_assign_of_ne`: it leaves every other name as it is.
* `values_assign_self_iff`: it stands alone for its own name when no field spells that otherwise.
* `indexFields`: the properties of an array of pairs; `exists_lost`: one of the pairs is lost there.
-/

namespace Headers

open BigIntText

/-! ### Names and values -/

/-- A name, whatever the case of its letters. -/
def lower (name : String) : String :=
  String.ofList (name.toList.map Char.toLower)

def isHttpBlank (c : Char) : Bool :=
  c ∈ ['\t', '\n', '\r', ' ']

/-- A value without the blanks around it. -/
def strip (value : String) : String :=
  String.ofList ((value.toList.dropWhile isHttpBlank).rdropWhile isHttpBlank)

def isTokenChar (c : Char) : Bool :=
  c.isAlphanum || c ∈ "!#$%&'*+-.^_`|~".toList

/-- A name is a token. A value is of bytes, and stays on its line. -/
def Valid (header : String × String) : Prop :=
  (header.1 ≠ "" ∧ ∀ c ∈ header.1.toList, isTokenChar c = true) ∧
    ∀ c ∈ (strip header.2).toList, c ∉ ['\x00', '\n', '\r'] ∧ c.toNat < 256

instance (header : String × String) : Decidable (Valid header) :=
  haveI (p : Char → Prop) [DecidablePred p] (cs : List Char) : Decidable (∀ c ∈ cs, p c) :=
    List.decidableBAll p cs
  inferInstanceAs (Decidable ((_ ∧ _) ∧ _))

/-- What a list holds for a name. -/
def values (headers : List (String × String)) (name : String) : List String :=
  (headers.filter fun header => lower header.1 = name).map fun header => strip header.2

/-- `new Headers(list)`: nothing where it throws. -/
def fill (headers : List (String × String)) : Option (List (String × String)) :=
  if ∀ header ∈ headers, Valid header then some headers else none

/-- A body says of what type it is, unless that is listed. -/
def withType (type : Option String) (headers : List (String × String)) : List (String × String) :=
  if values headers "content-type" = [] then
    headers ++ type.toList.map fun t => ("Content-Type", t)
  else headers

variable {headers headers' fields : List (String × String)} {name key value : String}

@[simp] theorem fill_eq_some : fill headers = some headers' ↔
    (∀ header ∈ headers, Valid header) ∧ headers = headers' := by
  rw [fill]
  split <;> simp_all

@[simp] theorem values_nil : values [] name = [] := rfl

theorem values_cons (header : String × String) :
    values (header :: headers) name =
      if lower header.1 = name then strip header.2 :: values headers name
      else values headers name := by
  by_cases h : lower header.1 = name <;> simp [values, h]

theorem values_append :
    values (headers ++ headers') name = values headers name ++ values headers' name := by
  simp [values]

theorem mem_values : value ∈ values headers name ↔
    ∃ header ∈ headers, lower header.1 = name ∧ strip header.2 = value := by
  simp [values, and_assoc]

theorem values_eq_nil_iff : values headers name = [] ↔ ∀ header ∈ headers,
    lower header.1 ≠ name := by
  simp [values]

/-- What a type adds. -/
theorem values_withType (type : Option String) :
    values (withType type headers) name =
      if name = "content-type" ∧ values headers name = [] then type.toList.map strip
      else values headers name := by
  have hlower : lower "Content-Type" = "content-type" := by decide
  rw [withType]
  by_cases hname : name = "content-type"
  · subst hname
    by_cases h : values headers "content-type" = []
    · rw [if_pos h, if_pos ⟨rfl, h⟩, values_append, h, List.nil_append]
      cases type <;> simp [values_cons, hlower]
    · have hpair : ¬ ("content-type" = "content-type" ∧ values headers "content-type" = []) :=
        fun h' => h h'.2
      rw [if_neg h, if_neg hpair]
  · have hpair : ¬ (name = "content-type" ∧ values headers name = []) := fun h => hname h.1
    rw [if_neg hpair]
    split
    case isTrue =>
      rw [values_append]
      cases type <;> simp [values_cons, hlower, Ne.symm hname]
    case isFalse => rfl

/-- Two lists that agree on a set of names still do when a type is given to both. -/
theorem values_withType_congr (type : Option String)
    (h : values headers name = values headers' name) :
    values (withType type headers) name = values (withType type headers') name := by
  rw [values_withType, values_withType, h]

theorem strip_eq_self (h : ∀ c ∈ value.toList, isHttpBlank c = false) : strip value = value := by
  have hfront : value.toList.dropWhile isHttpBlank = value.toList :=
    List.dropWhile_eq_self_iff.mpr fun hl =>
      Bool.eq_false_iff.mp (h _ (List.getElem_mem hl))
  have hback : value.toList.rdropWhile isHttpBlank = value.toList :=
    List.rdropWhile_eq_self_iff.mpr fun hl =>
      Bool.eq_false_iff.mp (h _ (List.getLast_mem hl))
  rw [strip, hfront, hback, String.ofList_toList]

/-! ### A property is assigned -/

/-- `{ ...fields, [key]: value }`. -/
def assign : List (String × String) → String → String → List (String × String)
  | [], key, value => [(key, value)]
  | field :: fields, key, value =>
      if field.1 = key then (key, value) :: fields else field :: assign fields key value

theorem mem_of_mem_assign {field : String × String} (h : field ∈ assign fields key value) :
    field ∈ fields ∨ field = (key, value) := by
  induction fields with
  | nil => exact .inr (List.mem_singleton.mp h)
  | cons f fields ih =>
      rw [assign] at h
      split at h
      · rcases List.mem_cons.mp h with rfl | h
        · exact .inr rfl
        · exact .inl (List.mem_cons_of_mem _ h)
      · rcases List.mem_cons.mp h with rfl | h
        · exact .inl List.mem_cons_self
        · exact (ih h).imp_left (List.mem_cons_of_mem _)

/-- Its keys stay distinct. -/
theorem assign_keys_nodup (h : (fields.map Prod.fst).Nodup) :
    ((assign fields key value).map Prod.fst).Nodup := by
  induction fields with
  | nil => exact List.nodup_singleton _
  | cons f fields ih =>
      rw [List.map_cons, List.nodup_cons] at h
      rw [assign]
      split
      case isTrue hf => exact List.nodup_cons.mpr ⟨hf ▸ h.1, h.2⟩
      case isFalse hf =>
        refine List.nodup_cons.mpr ⟨fun hmem => ?_, ih h.2⟩
        obtain ⟨g, hg, hgf⟩ := List.mem_map.mp hmem
        rcases mem_of_mem_assign hg with hg | rfl
        · exact h.1 (hgf ▸ List.mem_map_of_mem hg)
        · exact hf hgf.symm

/-- It is the fields of every other key, and the new one. -/
theorem assign_perm (h : (fields.map Prod.fst).Nodup) :
    (assign fields key value).Perm
      (fields.filter (fun field => field.1 ≠ key) ++ [(key, value)]) := by
  induction fields with
  | nil => exact List.Perm.refl _
  | cons f fields ih =>
      rw [List.map_cons, List.nodup_cons] at h
      rw [assign]
      split
      case isTrue hf =>
        have hrest : fields.filter (fun field => field.1 ≠ key) = fields := by
          refine List.filter_eq_self.mpr fun g hg => ?_
          exact decide_eq_true fun heq => h.1 (by rw [hf, ← heq]; exact List.mem_map_of_mem hg)
        rw [List.filter_cons_of_neg (by simp [hf]), hrest]
        exact (List.perm_append_singleton _ _).symm
      case isFalse hf =>
        rw [List.filter_cons_of_pos (by simp [hf])]
        exact (ih h.2).cons f

theorem values_assign_of_ne (h : lower key ≠ name) :
    values (assign fields key value) name = values fields name := by
  induction fields with
  | nil => simp [assign, values_cons, h]
  | cons f fields ih =>
      rw [assign]
      split
      case isTrue hf => rw [values_cons, values_cons, hf, if_neg h, if_neg h]
      case isFalse => rw [values_cons, values_cons, ih]

/-- **The value stands alone** unless a field has the name in another spelling. -/
theorem values_assign_self_iff (h : (fields.map Prod.fst).Nodup) :
    values (assign fields key value) (lower key) = [strip value] ↔
      ∀ field ∈ fields, lower field.1 = lower key → field.1 = key := by
  induction fields with
  | nil => simp [assign, values_cons]
  | cons f fields ih =>
      rw [List.map_cons, List.nodup_cons] at h
      rw [assign]
      split
      case isTrue hf =>
        rw [values_cons, if_pos rfl, List.cons_eq_cons, values_eq_nil_iff]
        constructor
        · rintro ⟨-, hnone⟩ g hg hlower
          rcases List.mem_cons.mp hg with rfl | hg
          · exact hf
          · exact absurd hlower (hnone g hg)
        · intro hsame
          refine ⟨rfl, fun g hg hlower => h.1 ?_⟩
          rw [hf, ← hsame g (List.mem_cons_of_mem _ hg) hlower]
          exact List.mem_map_of_mem hg
      case isFalse hf =>
        rw [values_cons, List.forall_mem_cons]
        by_cases hlower : lower f.1 = lower key
        · -- the other spelling comes first, and the value after it
          rw [if_pos hlower]
          refine iff_of_false (fun heq => ?_) fun hsame => hf (hsame.1 hlower)
          have hmem : strip value ∈ values (assign fields key value) (lower key) := by
            refine mem_values.mpr ⟨(key, value), ?_, rfl, rfl⟩
            exact (assign_perm h.2).mem_iff.mpr
              (List.mem_append_right _ (List.mem_singleton_self _))
          rw [(List.cons_eq_cons.mp heq).2] at hmem
          exact List.not_mem_nil hmem
        · rw [if_neg hlower, ih h.2]
          exact ⟨fun hsame => ⟨fun hl => absurd hl hlower, hsame⟩, And.right⟩

/-! ### An array of pairs as an object -/

/-- The properties of an array of pairs: by its index each pair, as a text. -/
def indexFields (entries : List (String × String)) : List (String × String) :=
  entries.zipIdx.map fun entry => (toString entry.2, entry.1.1 ++ "," ++ entry.1.2)

theorem indexFields_keys_nodup (entries : List (String × String)) :
    ((indexFields entries).map Prod.fst).Nodup := by
  have hkeys : (indexFields entries).map Prod.fst = (entries.zipIdx.map Prod.snd).map toString := by
    rw [indexFields, List.map_map, List.map_map]
    rfl
  rw [hkeys, List.zipIdx_map_snd]
  exact (List.nodup_range' ..).map toString_injective

/-- An index has no letters. -/
theorem lower_toString (n : ℕ) : lower (toString n) = toString n := by
  have hsame : (toString n).toList.map Char.toLower = (toString n).toList := by
    refine (List.map_congr_left fun c hc => ?_).trans (List.map_id _)
    have hdigit := isDigit_of_mem_toString hc
    have hlow : ¬ (c.val ≥ 'A'.val ∧ c.val ≤ 'Z'.val) := by
      simp only [Char.isDigit, Bool.and_eq_true, decide_eq_true_eq] at hdigit
      exact fun h => absurd (UInt32.le_trans h.1 hdigit.2) (by decide)
    exact dif_neg hlow
  rw [lower, hsame, String.ofList_toList]

theorem toString_ne_of_mem {n : ℕ} {c : Char} (hc : c ∈ name.toList) (hdigit : c.isDigit = false) :
    toString n ≠ name := by
  rintro rfl
  rw [isDigit_of_mem_toString hc] at hdigit
  exact Bool.noConfusion hdigit

def commas (value : String) : ℕ :=
  value.toList.count ','

/-- No comma is a blank. -/
@[simp] theorem commas_strip (value : String) : commas (strip value) = commas value := by
  have hdrop : ∀ cs : List Char, (cs.dropWhile isHttpBlank).count ',' = cs.count ',' := by
    intro cs
    induction cs with
    | nil => rfl
    | cons c cs ih =>
        by_cases hc : isHttpBlank c = true
        · have hne : c ≠ ',' := by
            rintro rfl
            exact absurd hc (by decide)
          rw [List.dropWhile_cons_of_pos hc, ih, List.count_cons_of_ne hne]
        · rw [List.dropWhile_cons_of_neg hc]
  rw [commas, commas, strip, String.toList_ofList, List.rdropWhile, List.count_reverse, hdrop,
    List.count_reverse, hdrop]

/-- **A pair is lost**: the text of the one with the most commas is the value of none. -/
theorem exists_lost {entries : List (String × String)} (h : entries ≠ []) :
    ∃ (i : ℕ) (text : String), (toString i, text) ∈ indexFields entries ∧
      ∀ entry ∈ entries, strip entry.2 ≠ strip text := by
  obtain ⟨e, he, hmost⟩ :=
    entries.toFinset.exists_max_image (fun entry => commas entry.2) (by simpa using h)
  obtain ⟨i, hi⟩ := List.getElem?_of_mem (List.mem_toFinset.mp he)
  refine ⟨i, e.1 ++ "," ++ e.2, List.mem_map_of_mem (a := (e, i)) ?_, fun entry hentry heq => ?_⟩
  · exact List.mk_mem_zipIdx_iff_getElem?.mpr hi
  · -- the text has a comma more than the value that has the most of them
    have hle := hmost entry (List.mem_toFinset.mpr hentry)
    have hmore : commas (e.1 ++ "," ++ e.2) = commas e.1 + 1 + commas e.2 := by
      simp [commas, List.count_append, Nat.add_assoc, Nat.add_comm 1]
    have hsame := congrArg commas heq
    rw [commas_strip, commas_strip, hmore] at hsame
    omega

end Headers
