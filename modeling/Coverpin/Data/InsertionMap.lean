import Mathlib.Algebra.GroupWithZero.Nat
import Mathlib.Data.List.Nodup
import Mathlib.Data.List.Basic
import Mathlib.Data.Set.Operations
import Coverpin.Data.FirstMentions

namespace Coverpin.Data

/-! Finite maps that remember the order in which their keys were first set.

Setting a key that is already present overwrites its value in place; a new key
goes to the end.  The distinctness of the keys is carried by the value, so a
lookup and a membership in the entry list are always the same fact.
-/

/-- Overwrite the value of `key` in place, or append a new entry. -/
def setEntry [DecidableEq κ] (key : κ) (value : ν) : List (κ × ν) → List (κ × ν)
  | [] => [(key, value)]
  | entry :: rest =>
      if entry.1 = key then (key, value) :: rest else entry :: setEntry key value rest

theorem setEntry_keys [DecidableEq κ] (key : κ) (value : ν) (entries : List (κ × ν)) :
    (setEntry key value entries).map Prod.fst = addNew (entries.map Prod.fst) key := by
  unfold addNew
  induction entries with
  | nil => simp [setEntry]
  | cons entry rest induction =>
      by_cases same : entry.1 = key
      · simp [setEntry, same]
      · have different : key ≠ entry.1 := fun equal => same equal.symm
        simp only [setEntry, same, if_false, List.map_cons, induction, List.mem_cons, different, false_or]
        split <;> simp

theorem setEntry_nodup [DecidableEq κ] {key : κ} {value : ν} {entries : List (κ × ν)}
    (distinct : (entries.map Prod.fst).Nodup) : ((setEntry key value entries).map Prod.fst).Nodup := by
  rw [setEntry_keys]
  exact addNew_nodup distinct key

theorem mem_setEntry [DecidableEq κ] {key : κ} {value : ν} {entries : List (κ × ν)}
    (distinct : (entries.map Prod.fst).Nodup) (entry : κ × ν) :
    entry ∈ setEntry key value entries ↔
      entry = (key, value) ∨ (entry.1 ≠ key ∧ entry ∈ entries) := by
  induction entries with
  | nil => simp [setEntry]
  | cons head rest induction =>
      obtain ⟨fresh, restDistinct⟩ := List.nodup_cons.mp distinct
      by_cases same : head.1 = key
      · have outside : ∀ other ∈ rest, other.1 ≠ key := fun other member equal =>
          fresh (same ▸ equal ▸ List.mem_map_of_mem member)
        simp only [setEntry, same, if_true, List.mem_cons]
        constructor
        · intro listed
          rcases listed with equal | member
          · exact .inl equal
          · exact .inr ⟨outside entry member, .inr member⟩
        · intro listed
          rcases listed with equal | ⟨different, rfl | member⟩
          · exact .inl equal
          · exact absurd same different
          · exact .inr member
      · simp only [setEntry, same, if_false, List.mem_cons, induction restDistinct]
        constructor
        · intro listed
          rcases listed with rfl | equal | ⟨different, member⟩
          · exact .inr ⟨same, .inl rfl⟩
          · exact .inl equal
          · exact .inr ⟨different, .inr member⟩
        · intro listed
          rcases listed with equal | ⟨different, rfl | member⟩
          · exact .inr (.inl equal)
          · exact .inl rfl
          · exact .inr (.inr ⟨different, member⟩)

/-- A finite map whose entries keep their insertion order. -/
@[ext] structure InsertionMap (κ : Type u) (ν : Type v) where
  entries : List (κ × ν)
  distinct : (entries.map Prod.fst).Nodup

namespace InsertionMap

variable [DecidableEq κ] {map : InsertionMap κ ν} {key other : κ} {value : ν}

def empty : InsertionMap κ ν := ⟨[], List.nodup_nil⟩

def set (map : InsertionMap κ ν) (key : κ) (value : ν) : InsertionMap κ ν :=
  ⟨setEntry key value map.entries, setEntry_nodup map.distinct⟩

def get? (map : InsertionMap κ ν) (key : κ) : Option ν :=
  (map.entries.find? (·.1 = key)).map Prod.snd

def has (map : InsertionMap κ ν) (key : κ) : Bool :=
  (map.get? key).isSome

def keys (map : InsertionMap κ ν) : List κ :=
  map.entries.map Prod.fst

/-- Set each pair in turn, so that the last value of a key stays. -/
def setAll (map : InsertionMap κ ν) (pairs : List (κ × ν)) : InsertionMap κ ν :=
  pairs.foldl (fun map pair => map.set pair.1 pair.2) map

def ofPairs (pairs : List (κ × ν)) : InsertionMap κ ν :=
  empty.setAll pairs

theorem get?_eq_some : map.get? key = some value ↔ (key, value) ∈ map.entries := by
  simp only [get?, Option.map_eq_some_iff]
  constructor
  · intro value
    obtain ⟨entry, found, rfl⟩ := value
    have same : entry.1 = key := by simpa using List.find?_some found
    exact same ▸ List.mem_of_find?_eq_some found
  · intro member
    cases found : map.entries.find? (·.1 = key) with
    | none =>
        have absent := List.find?_eq_none.mp found (key, value) member
        simp at absent
    | some entry =>
        have same : entry.1 = key := by simpa using List.find?_some found
        have present := List.mem_of_find?_eq_some found
        have unique := List.inj_on_of_nodup_map map.distinct present member same
        exact ⟨entry, rfl, by rw [unique]⟩

theorem get?_eq_none : map.get? key = none ↔ key ∉ map.keys := by
  simp only [get?, keys, Option.map_eq_none_iff, List.find?_eq_none, List.mem_map, decide_eq_true_eq,
    not_exists, not_and]

theorem mem_set (entry : κ × ν) :
    entry ∈ (map.set key value).entries ↔
      entry = (key, value) ∨ (entry.1 ≠ key ∧ entry ∈ map.entries) :=
  mem_setEntry map.distinct entry

@[simp] theorem get?_empty : (empty : InsertionMap κ ν).get? key = none := rfl

@[simp] theorem get?_set_self : (map.set key value).get? key = some value :=
  get?_eq_some.mpr ((mem_set _).mpr (.inl rfl))

theorem get?_set_other (different : other ≠ key) : (map.set key value).get? other = map.get? other := by
  apply Option.ext
  intro found
  rw [get?_eq_some, get?_eq_some, mem_set]
  simp [different]

theorem keys_set (map : InsertionMap κ ν) (key : κ) (value : ν) : (map.set key value).keys = addNew map.keys key :=
  setEntry_keys key value map.entries

@[simp] theorem mem_keys_set : other ∈ (map.set key value).keys ↔ other = key ∨ other ∈ map.keys := by
  rw [keys_set, mem_addNew, or_comm]

/-- However the values are made, the keys are set in the order of the items. -/
theorem keys_foldl_set {ι : Type w} (items : List ι) (keyOf : ι → κ) (value : InsertionMap κ ν → ι → ν)
    (map : InsertionMap κ ν) :
    (items.foldl (fun map item => map.set (keyOf item) (value map item)) map).keys =
      (items.map keyOf).foldl addNew map.keys := by
  induction items generalizing map with
  | nil => rfl
  | cons item items induction => rw [List.foldl_cons, induction, keys_set, List.map_cons, List.foldl_cons]

theorem keys_setAll (map : InsertionMap κ ν) (pairs : List (κ × ν)) :
    (map.setAll pairs).keys = (pairs.map Prod.fst).foldl addNew map.keys :=
  keys_foldl_set pairs Prod.fst (fun _ pair => pair.2) map

theorem mem_keys_setAll {pairs : List (κ × ν)} :
    key ∈ (map.setAll pairs).keys ↔ key ∈ map.keys ∨ key ∈ pairs.map Prod.fst := by
  rw [keys_setAll, mem_foldl_addNew]

theorem mem_keys_ofPairs {pairs : List (κ × ν)} :
    key ∈ (ofPairs pairs).keys ↔ key ∈ pairs.map Prod.fst := by
  rw [ofPairs, mem_keys_setAll]
  simp [empty, keys]

theorem mem_of_get?_setAll {pairs : List (κ × ν)} (found : (map.setAll pairs).get? key = some value) :
    map.get? key = some value ∨ (key, value) ∈ pairs := by
  induction pairs generalizing map with
  | nil => exact .inl found
  | cons pair rest induction =>
      rcases @induction (map.set pair.1 pair.2) found with held | member
      · by_cases same : key = pair.1
        · subst same
          rw [get?_set_self, Option.some.injEq] at held
          exact .inr (List.mem_cons.mpr (.inl (by rw [← held])))
        · rw [get?_set_other same] at held
          exact .inl held
      · exact .inr (List.mem_cons_of_mem _ member)

theorem mem_of_get?_ofPairs {pairs : List (κ × ν)} (found : (ofPairs pairs).get? key = some value) :
    (key, value) ∈ pairs := by
  simpa using mem_of_get?_setAll found

/-- Where the pairs have distinct keys, `ofPairs` holds exactly the pairs. -/
theorem get?_ofPairs {pairs : List (κ × ν)} (distinct : (pairs.map Prod.fst).Nodup) :
    (ofPairs pairs).get? key = some value ↔ (key, value) ∈ pairs := by
  refine ⟨mem_of_get?_ofPairs, fun member => ?_⟩
  have present : key ∈ (ofPairs pairs).keys :=
    mem_keys_ofPairs.mpr (List.mem_map_of_mem (f := Prod.fst) member)
  cases found : (ofPairs pairs).get? key with
  | none => exact absurd present (get?_eq_none.mp found)
  | some held =>
      have same := List.inj_on_of_nodup_map distinct (mem_of_get?_ofPairs found) member rfl
      rw [(Prod.mk.inj same).2]

theorem setEntry_of_absent {entries : List (κ × ν)} (absent : key ∉ entries.map Prod.fst) :
    setEntry key value entries = entries ++ [(key, value)] := by
  induction entries with
  | nil => rfl
  | cons entry rest induction =>
      rw [List.map_cons, List.mem_cons, not_or] at absent
      rw [setEntry, if_neg fun same => absent.1 same.symm, induction absent.2, List.cons_append]

theorem setAll_entries_of_distinct {pairs : List (κ × ν)}
    (distinct : ((map.entries ++ pairs).map Prod.fst).Nodup) :
    (map.setAll pairs).entries = map.entries ++ pairs := by
  induction pairs generalizing map with
  | nil => exact (List.append_nil _).symm
  | cons pair rest induction =>
      have absent : pair.1 ∉ map.entries.map Prod.fst := by
        intro member
        rw [List.map_append, List.map_cons] at distinct
        exact (List.nodup_append.mp distinct).2.2 _ member _ (by simp) rfl
      have entries : (map.set pair.1 pair.2).entries = map.entries ++ [pair] := setEntry_of_absent absent
      have longer := @induction (map.set pair.1 pair.2) (by rw [entries]; simpa using distinct)
      rw [setAll, List.foldl_cons, ← setAll, longer, entries]
      simp

theorem ofPairs_entries {pairs : List (κ × ν)} (distinct : (pairs.map Prod.fst).Nodup) :
    (ofPairs pairs).entries = pairs :=
  setAll_entries_of_distinct distinct

theorem filter_setEntry {p : κ → Bool} (excluded : p key = false) (entries : List (κ × ν)) :
    (setEntry key value entries).filter (fun entry => p entry.1) = entries.filter fun entry => p entry.1 := by
  induction entries with
  | nil => simp [setEntry, excluded]
  | cons entry rest induction =>
      by_cases same : entry.1 = key
      · simp [setEntry, same, excluded]
      · simp only [setEntry, same, if_false, List.filter_cons, induction]

theorem filter_setAll {p : κ → Bool} {pairs : List (κ × ν)} (excluded : ∀ pair ∈ pairs, p pair.1 = false) :
    (map.setAll pairs).entries.filter (fun entry => p entry.1) = map.entries.filter fun entry => p entry.1 := by
  induction pairs generalizing map with
  | nil => rfl
  | cons pair rest induction =>
      exact (induction fun other member => excluded other (List.mem_cons_of_mem _ member)).trans
        (filter_setEntry (excluded pair (by simp)) map.entries)

/-- Renaming the keys by a map that is injective on them commutes with setting. -/
theorem setEntry_map {κ' : Type w} [DecidableEq κ'] (rename : κ → κ') (key : κ) (value : ν) {entries : List (κ × ν)}
    (injective : ∀ entry ∈ entries, rename entry.1 = rename key → entry.1 = key) :
    (setEntry key value entries).map (fun entry => (rename entry.1, entry.2)) =
      setEntry (rename key) value (entries.map fun entry => (rename entry.1, entry.2)) := by
  induction entries with
  | nil => rfl
  | cons entry rest induction =>
      by_cases same : entry.1 = key
      · simp [setEntry, same]
      · have renamed : rename entry.1 ≠ rename key := fun equal => same (injective entry (by simp) equal)
        simp only [setEntry, same, if_false, List.map_cons, renamed,
          induction fun other member => injective other (List.mem_cons_of_mem _ member)]

/-- The map under renamed keys. -/
def rename {κ' : Type w} [DecidableEq κ'] (name : κ → κ') (map : InsertionMap κ ν) : InsertionMap κ' ν :=
  ofPairs (map.entries.map fun entry => (name entry.1, entry.2))

section Rename

variable {κ' : Type w} [DecidableEq κ'] {name : κ → κ'} {domain : Set κ}

omit [DecidableEq κ] in
theorem rename_entries (injective : Set.InjOn name domain) (inside : ∀ key ∈ map.keys, key ∈ domain) :
    (map.rename name).entries = map.entries.map fun entry => (name entry.1, entry.2) := by
  refine ofPairs_entries ?_
  rw [List.map_map]
  refine List.pairwise_map.mpr ((List.pairwise_map.mp map.distinct).imp_of_mem ?_)
  intro entry other member otherMember different same
  exact different (injective (inside _ (List.mem_map_of_mem member)) (inside _ (List.mem_map_of_mem otherMember)) same)

theorem rename_set (injective : Set.InjOn name domain) (inside : ∀ key ∈ map.keys, key ∈ domain)
    (new : key ∈ domain) (value : ν) : (map.set key value).rename name = (map.rename name).set (name key) value := by
  apply InsertionMap.ext
  have kept : ∀ other ∈ (map.set key value).keys, other ∈ domain := by
    intro other member
    rcases mem_keys_set.mp member with rfl | old
    · exact new
    · exact inside other old
  rw [rename_entries injective kept]
  change _ = setEntry (name key) value (map.rename name).entries
  rw [rename_entries injective inside]
  exact setEntry_map name key value fun entry member same =>
    injective (inside _ (List.mem_map_of_mem member)) new same

/-- Renaming commutes with setting pairs where it is injective. -/
theorem rename_setAll (injective : Set.InjOn name domain) (inside : ∀ key ∈ map.keys, key ∈ domain) {pairs : List (κ × ν)}
    (new : ∀ pair ∈ pairs, pair.1 ∈ domain) :
    (map.setAll pairs).rename name = (map.rename name).setAll (pairs.map fun pair => (name pair.1, pair.2)) := by
  induction pairs generalizing map with
  | nil => rfl
  | cons pair rest induction =>
      have first := rename_set injective inside (new pair (by simp)) pair.2
      have kept : ∀ key ∈ (map.set pair.1 pair.2).keys, key ∈ domain := by
        intro key member
        rcases mem_keys_set.mp member with rfl | old
        · exact new pair (by simp)
        · exact inside key old
      have later := induction kept fun other member => new other (List.mem_cons_of_mem _ member)
      rw [first] at later
      exact later

omit [DecidableEq κ] in
theorem rename_congr {other : κ → κ'} (same : ∀ key ∈ map.keys, name key = other key) :
    map.rename name = map.rename other := by
  rw [rename, rename, List.map_congr_left fun entry member => by rw [same entry.1 (List.mem_map_of_mem member)]]

end Rename

theorem ofPairs_append (pairs later : List (κ × ν)) : ofPairs (pairs ++ later) = (ofPairs pairs).setAll later :=
  List.foldl_append

/-- The last value of a key in the pairs counts, else the one it had. -/
theorem get?_setAll {pairs : List (κ × ν)} :
    (map.setAll pairs).get? key = ((ofPairs pairs).get? key).or (map.get? key) := by
  induction pairs generalizing map with
  | nil => rfl
  | cons pair rest induction =>
      have first : (map.setAll (pair :: rest)).get? key =
          ((ofPairs rest).get? key).or ((map.set pair.1 pair.2).get? key) := induction
      have second : (ofPairs (pair :: rest)).get? key =
          ((ofPairs rest).get? key).or (((empty : InsertionMap κ ν).set pair.1 pair.2).get? key) := induction
      rw [first, second]
      by_cases same : key = pair.1
      · rw [same, get?_set_self, get?_set_self]
        cases (ofPairs rest).get? pair.1 <;> rfl
      · rw [get?_set_other same, get?_set_other same, get?_empty, Option.or_none]

theorem ofPairs_get?_of_absent {pairs : List (κ × ν)} (absent : key ∉ pairs.map Prod.fst) :
    (ofPairs pairs).get? key = none :=
  get?_eq_none.mpr fun member => absent (mem_keys_ofPairs.mp member)

theorem get?_setAll_of_absent {pairs : List (κ × ν)} (absent : key ∉ pairs.map Prod.fst) :
    (map.setAll pairs).get? key = map.get? key := by
  rw [get?_setAll, ofPairs_get?_of_absent absent, Option.none_or]

theorem get?_setAll_of_mem {pairs : List (κ × ν)} (distinct : (pairs.map Prod.fst).Nodup)
    (member : (key, value) ∈ pairs) : (map.setAll pairs).get? key = some value := by
  rw [get?_setAll, (get?_ofPairs distinct).mpr member, Option.some_or]

/-- Up to their order the entries are the pairs and what was held under other keys. -/
theorem setAll_perm {pairs : List (κ × ν)} (distinct : (pairs.map Prod.fst).Nodup) : (map.setAll pairs).entries.Perm
    (pairs ++ map.entries.filter fun entry => decide (entry.1 ∉ pairs.map Prod.fst)) := by
  have ownDistinct : map.entries.Nodup := map.distinct.of_map
  refine (List.perm_ext_iff_of_nodup (map.setAll pairs).distinct.of_map ?_).mpr fun entry => ?_
  · refine List.nodup_append.mpr ⟨distinct.of_map, ownDistinct.filter _, fun pair listed entry kept same => ?_⟩
    have other := (List.mem_filter.mp kept).2
    rw [decide_eq_true_eq, ← same] at other
    exact other (List.mem_map_of_mem listed)
  · rw [← get?_eq_some, List.mem_append, List.mem_filter, decide_eq_true_eq]
    by_cases written : entry.1 ∈ pairs.map Prod.fst
    · obtain ⟨pair, listed, same⟩ := List.mem_map.mp written
      have value : (map.setAll pairs).get? entry.1 = some pair.2 := same ▸ get?_setAll_of_mem distinct listed
      rw [value]
      constructor
      · intro held
        exact .inl (by rwa [← Prod.ext same (Option.some.inj held)])
      · intro held
        rcases held with again | kept
        · rw [List.inj_on_of_nodup_map distinct listed again same]
        · exact absurd written kept.2
    · rw [get?_setAll_of_absent written, get?_eq_some]
      constructor
      · exact fun held => .inr ⟨held, written⟩
      · intro held
        rcases held with listed | kept
        · exact absurd (List.mem_map_of_mem listed) written
        · exact kept.1

theorem sum_setEntry (f : ν → Nat) {old : ν} {entries : List (κ × ν)} (distinct : (entries.map Prod.fst).Nodup)
    (member : (key, old) ∈ entries) : ((setEntry key value entries).map fun entry => f entry.2).sum + f old =
      (entries.map fun entry => f entry.2).sum + f value := by
  induction entries with
  | nil => cases member
  | cons entry rest induction =>
      obtain ⟨absent, distinct⟩ := List.nodup_cons.mp distinct
      by_cases same : entry.1 = key
      · have held : entry = (key, old) := by
          rcases List.mem_cons.mp member with first | later
          · exact first.symm
          · exact absurd (List.mem_map_of_mem (f := Prod.fst) later) (same ▸ absent)
        subst held
        simp only [setEntry, if_true, List.map_cons, List.sum_cons]
        omega
      · have later : (key, old) ∈ rest := by
          rcases List.mem_cons.mp member with first | later
          · exact absurd (congrArg Prod.fst first.symm) same
          · exact later
        have sums := induction distinct later
        simp only [setEntry, if_neg same, List.map_cons, List.sum_cons]
        omega

/-- Setting a key changes a sum over the values by the one that it replaces. -/
theorem sum_set (f : ν → Nat) {old : ν} (found : map.get? key = some old) :
    ((map.set key value).entries.map fun entry => f entry.2).sum + f old =
      (map.entries.map fun entry => f entry.2).sum + f value :=
  sum_setEntry f map.distinct (get?_eq_some.mp found)

theorem sum_set_of_absent (f : ν → Nat) (absent : map.get? key = none) :
    ((map.set key value).entries.map fun entry => f entry.2).sum =
      (map.entries.map fun entry => f entry.2).sum + f value := by
  have entries : (map.set key value).entries = map.entries ++ [(key, value)] :=
    setEntry_of_absent (get?_eq_none.mp absent)
  simp [entries]

/-- Pairs with distinct keys may be set in any order. -/
theorem get?_setAll_perm {pairs others : List (κ × ν)} (distinct : (pairs.map Prod.fst).Nodup) (perm : others.Perm pairs) :
    (map.setAll others).get? key = (map.setAll pairs).get? key := by
  have same : (ofPairs others).get? key = (ofPairs pairs).get? key := by
    apply Option.ext
    intro value
    rw [get?_ofPairs ((perm.map Prod.fst).nodup_iff.mpr distinct), get?_ofPairs distinct]
    exact perm.mem_iff
  rw [get?_setAll, get?_setAll, same]

/-- The last batch that has a key decides its value. -/
theorem get?_ofPairs_last {β : Type w} {pairs : β → List (κ × ν)} {earlier later : List β} {batch : β}
    (found : (ofPairs (pairs batch)).get? key = some value) (absent : ∀ other ∈ later, key ∉ (pairs other).map Prod.fst) :
    (ofPairs ((earlier ++ batch :: later).flatMap pairs)).get? key = some value := by
  have unset : key ∉ (later.flatMap pairs).map Prod.fst := by
    intro member
    obtain ⟨pair, inside, rfl⟩ := List.mem_map.mp member
    obtain ⟨other, listed, set⟩ := List.mem_flatMap.mp inside
    exact absent other listed (List.mem_map_of_mem set)
  rw [List.flatMap_append, List.flatMap_cons, ofPairs_append, get?_setAll, ofPairs_append, get?_setAll_of_absent unset,
    found, Option.some_or]

theorem keys_setAll_of_present {pairs : List (κ × ν)} (present : ∀ pair ∈ pairs, pair.1 ∈ map.keys) :
    (map.setAll pairs).keys = map.keys := by
  rw [keys_setAll]
  apply foldl_addNew_of_subset
  intro key listed
  obtain ⟨pair, member, rfl⟩ := List.mem_map.mp listed
  exact present pair member

/-- Keys in their order and the value of each key make up the map. -/
theorem ext_get? {left right : InsertionMap κ ν} (sameKeys : left.keys = right.keys)
    (values : ∀ key, left.get? key = right.get? key) : left = right := by
  have read : ∀ map : InsertionMap κ ν, map.entries =
      map.keys.filterMap fun key => (map.get? key).map fun value => (key, value) := by
    intro map
    have each : ∀ entry ∈ map.entries, (map.get? entry.1).map (fun value => (entry.1, value)) = some entry :=
      fun entry member => by rw [get?_eq_some.mpr member, Option.map_some]
    rw [keys, List.filterMap_map]
    exact ((List.filterMap_congr each).trans List.filterMap_some).symm
  apply InsertionMap.ext
  rw [read left, read right, sameKeys]
  exact List.filterMap_congr fun key _ => by rw [values key]

/-- Setting what the map holds already changes nothing, however often a key
occurs in the pairs. -/
theorem setAll_eq_self {pairs : List (κ × ν)}
    (held : ∀ key value, (ofPairs pairs).get? key = some value → map.get? key = some value) : map.setAll pairs = map := by
  refine ext_get? (keys_setAll_of_present fun pair member => ?_) fun key => ?_
  · have listed : pair.1 ∈ (ofPairs pairs).keys := mem_keys_ofPairs.mpr (List.mem_map_of_mem member)
    cases last : (ofPairs pairs).get? pair.1 with
    | none => exact absurd listed (get?_eq_none.mp last)
    | some value => exact List.mem_map.mpr ⟨(pair.1, value), get?_eq_some.mp (held pair.1 value last), rfl⟩
  · rw [get?_setAll]
    cases last : (ofPairs pairs).get? key with
    | none => rfl
    | some value => rw [held key value last, Option.some_or]

def push {ι : Type w} (map : InsertionMap κ (List ι)) (key : κ) (item : ι) : InsertionMap κ (List ι) :=
  map.set key ((map.get? key).getD [] ++ [item])

def add (map : InsertionMap κ Nat) (key : κ) (amount : Nat) : InsertionMap κ Nat :=
  map.set key ((map.get? key).getD 0 + amount)

theorem getD_foldl_add {ι : Type w} {items : List ι} (keyFn : ι → κ) (amount : ι → Nat) {totals : InsertionMap κ Nat} :
    ((items.foldl (fun map item => map.add (keyFn item) (amount item)) totals).get? key).getD 0 =
      (totals.get? key).getD 0 + ((items.filter (keyFn · = key)).map amount).sum := by
  induction items generalizing totals with
  | nil => simp
  | cons item items induction =>
      rw [List.foldl_cons, induction, List.filter_cons]
      by_cases same : keyFn item = key
      · subst same
        simp [add, Nat.add_assoc]
      · have different : key ≠ keyFn item := fun equal => same equal.symm
        simp [add, get?_set_other different, same]

/-- Group items by a key; groups and their members keep the order of the items. -/
def groupBy {ι : Type w} (items : List ι) (keyFn : ι → κ) : InsertionMap κ (List ι) :=
  items.foldl (fun map item => map.push (keyFn item) item) empty

section Groups

variable {ι : Type w} {items : List ι} {keyFn : ι → κ} {groups : InsertionMap κ (List ι)} {item : ι}

theorem getD_push : ((groups.push key item).get? other).getD [] =
    (groups.get? other).getD [] ++ if key = other then [item] else [] := by
  by_cases same : key = other
  · subst same
    simp [push]
  · have different : other ≠ key := fun equal => same equal.symm
    simp [push, get?_set_other different, same]

theorem getD_foldl_push {μ : Type x} (keyFn : ι → κ) (value : ι → μ) {groups : InsertionMap κ (List μ)} :
    ((items.foldl (fun map item => map.push (keyFn item) (value item)) groups).get? key).getD [] =
      (groups.get? key).getD [] ++ (items.filter (keyFn · = key)).map value := by
  induction items generalizing groups with
  | nil => simp
  | cons item items induction =>
      rw [List.foldl_cons, induction, getD_push, List.append_assoc, List.filter_cons]
      by_cases same : keyFn item = key <;> simp [same]

theorem getD_groupBy : ((groupBy items keyFn).get? key).getD [] = items.filter (keyFn · = key) := by
  rw [groupBy, getD_foldl_push keyFn fun item => item, List.map_id']
  rfl

theorem mem_keys_groupBy : key ∈ (groupBy items keyFn).keys ↔ ∃ item ∈ items, keyFn item = key := by
  have keys : (groupBy items keyFn).keys = firsts (items.map keyFn) := keys_foldl_set items keyFn _ empty
  rw [keys, mem_firsts, List.mem_map]

theorem mem_groupBy {group : List ι} : (key, group) ∈ (groupBy items keyFn).entries ↔
    group = items.filter (keyFn · = key) ∧ group ≠ [] := by
  rw [← get?_eq_some]
  have members : ((groupBy items keyFn).get? key).getD [] = items.filter (keyFn · = key) := getD_groupBy
  constructor
  · intro found
    rw [found, Option.getD_some] at members
    refine ⟨members, fun empty => ?_⟩
    have present : key ∈ (groupBy items keyFn).keys :=
      List.mem_map_of_mem (f := Prod.fst) (get?_eq_some.mp found)
    obtain ⟨item, member, same⟩ := mem_keys_groupBy.mp present
    have inside : item ∈ items.filter (keyFn · = key) := List.mem_filter.mpr ⟨member, by simpa using same⟩
    rw [← members, empty] at inside
    simp at inside
  · intro group
    obtain ⟨rfl, present⟩ := group
    cases found : (groupBy items keyFn).get? key with
    | none => rw [found] at members; exact absurd members.symm present
    | some group => rw [found] at members; rw [← members]; rfl

/-- A report on every member of a group of two or more stays empty exactly when
the items have distinct keys. -/
theorem groupBy_reports_eq_nil {ε : Type x} {report : κ × List ι → ι → ε} :
    ((groupBy items keyFn).entries.flatMap fun entry =>
      if 1 < entry.2.length then entry.2.map (report entry) else []) = [] ↔ (items.map keyFn).Nodup := by
  have count : ∀ key, (items.filter (keyFn · = key)).length = (items.map keyFn).count key := by
    intro key
    rw [List.count, List.countP_map, List.countP_eq_length_filter]
    rfl
  rw [List.nodup_iff_count_le_one, List.flatMap_eq_nil_iff]
  constructor
  · intro silent key
    rw [← count]
    by_cases empty : items.filter (keyFn · = key) = []
    · simp [empty]
    · apply Nat.le_of_not_lt
      intro repeated
      have reported := silent (key, items.filter (keyFn · = key)) (mem_groupBy.mpr ⟨rfl, empty⟩)
      rw [if_pos repeated, List.map_eq_nil_iff] at reported
      exact empty reported
  · intro distinct entry member
    obtain ⟨key, group⟩ := entry
    have single : ¬ 1 < group.length := by
      rw [(mem_groupBy.mp member).1, count]
      exact Nat.not_lt.mpr (distinct key)
    rw [if_neg single]

end Groups

end InsertionMap

end Coverpin.Data
