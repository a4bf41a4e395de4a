import Mathlib.Data.List.Pairwise
import Coverpin.Data.Table

namespace Coverpin.Data

/-! # When an upsert goes through, and what it leaves

A row that finds a record of its key is written over it, a row that finds none
becomes a new record; either is accepted when no other record agrees with it on
the columns of a unique constraint.
-/

/-- A fold succeeds when every item can be processed in a state that still fits
the items after it. -/
theorem foldlM_exists {ε σ β : Type} (step : σ → β → Except ε σ) (fits : σ → List β → Prop)
    (each : ∀ state item rest, fits state (item :: rest) → ∃ next, step state item = .ok next ∧ fits next rest)
    (start : σ) {items : List β} (ready : fits start items) :
    ∃ final, items.foldlM step start = .ok final ∧ fits final [] := by
  induction items generalizing start with
  | nil => exact ⟨start, rfl, ready⟩
  | cons item items induction =>
      obtain ⟨middle, first, fitting⟩ := each start item items ready
      obtain ⟨final, rest, done⟩ := induction middle fitting
      refine ⟨final, ?_, done⟩
      rw [List.foldlM_cons, first]
      exact rest

variable {γ ρ ν ι κ π τ : Type} [DecidableEq γ] [DecidableEq ν] [DecidableEq ι] [DecidableEq κ]
  {schema : Schema γ ρ ν ι}

omit [DecidableEq γ] in
theorem agree_eq_true {columns : List γ} {left right : γ → Option ν} :
    agree columns left right = true ↔ ∀ column ∈ columns, (left column).isSome = true ∧ left column = right column := by
  simp only [agree, List.all_eq_true, Bool.and_eq_true, beq_iff_eq]

omit [DecidableEq γ] in
theorem agree_symm {columns : List γ} {left right : γ → Option ν} (agrees : agree columns left right = true) :
    agree columns right left = true := by
  rw [agree_eq_true] at agrees ⊢
  intro column member
  obtain ⟨some, same⟩ := agrees column member
  exact ⟨same ▸ some, same.symm⟩

/-- No record of another id agrees with `record` on the columns of a constraint. -/
def Schema.Clear (schema : Schema γ ρ ν ι) (records : List ρ) (record : ρ) : Prop :=
  ∀ other ∈ records, schema.id other ≠ schema.id record → ∀ columns ∈ schema.uniques,
    ¬ agree columns (schema.read other) (schema.read record) = true

omit [DecidableEq γ] [DecidableEq ι] in
/-- A unique constraint tells its records apart. -/
theorem Schema.Unique.eq_of_agree {records : List ρ} {record other : ρ} {columns : List γ} (unique : schema.Unique records)
    (constraint : columns ∈ schema.uniques) (member : record ∈ records) (otherMember : other ∈ records)
    (agrees : agree columns (schema.read record) (schema.read other) = true) : record = other := by
  have symmetric : Std.Symm fun record other : ρ =>
      ¬ agree columns (schema.read record) (schema.read other) = true :=
    ⟨fun _ _ apart agrees => apart (agree_symm agrees)⟩
  by_contra different
  exact (unique.2 columns constraint).forall member otherMember different agrees

section Functional

variable {newId : List ι → ι} {conflict : OnConflict γ} {before after other : Table schema}

omit [DecidableEq γ] [DecidableEq ι] in
theorem Table.ext {table other : Table schema} (same : table.records = other.records) : table = other := by
  obtain ⟨records, unique⟩ := table
  obtain ⟨_, _⟩ := other
  cases same
  rfl

omit [DecidableEq γ] in
theorem agree_trans {columns : List γ} {left middle right : γ → Option ν} (first : agree columns left middle = true)
    (second : agree columns middle right = true) : agree columns left right = true := by
  simp only [agree, List.all_eq_true, Bool.and_eq_true, beq_iff_eq] at first second ⊢
  exact fun column member => ⟨(first column member).1, (first column member).2.trans (second column member).2⟩

/-- A row is written over the one record that it conflicts with, or as a new record. -/
theorem Upserted.functional (constraint : conflict.target ∈ schema.uniques) {values : γ → Option ν}
    (written : Upserted newId conflict before values after) (again : Upserted newId conflict before values other) :
    after = other := by
  apply Table.ext
  cases written with
  | updated record updated member agrees built records =>
      cases again with
      | updated record' updated' member' agrees' built' records' =>
          obtain rfl := before.unique.eq_of_agree constraint member member' (agree_trans agrees (agree_symm agrees'))
          cases built.symm.trans built'
          rw [records, records']
      | inserted _ absent => exact absurd agrees (absent record member)
  | inserted record absent built records =>
      cases again with
      | updated record' _ member' agrees' => exact absurd agrees' (absent record' member')
      | inserted record' _ built' records' =>
          cases built.symm.trans built'
          rw [records, records']

/-- However the rows are cut into statements, there is one table they lead to. -/
theorem UpsertedAll.functional (constraint : conflict.target ∈ schema.uniques) {rows : List (γ → Option ν)}
    (written : UpsertedAll newId conflict before rows after) (again : UpsertedAll newId conflict before rows other) :
    after = other := by
  induction written with
  | nil =>
      cases again
      rfl
  | cons first rest induction =>
      cases again with
      | cons first' rest' =>
          obtain rfl := first.functional constraint first'
          exact induction rest'

end Functional

omit [DecidableEq γ] in
theorem Schema.Unique.replace {records : List ρ} {record : ρ} {id : ι} (unique : schema.Unique records)
    (sameId : schema.id record = id) (clear : schema.Clear records record) :
    schema.Unique (records.map fun other => if schema.id other = id then record else other) := by
  have ids : ∀ other, schema.id (if schema.id other = id then record else other) = schema.id other := by
    intro other
    split
    · rename_i same
      rw [sameId, same]
    · rfl
  refine ⟨?_, fun columns member => ?_⟩
  · rw [List.map_map]
    have unchanged : schema.id ∘ (fun other => if schema.id other = id then record else other) = schema.id := funext ids
    rw [unchanged]
    exact unique.1
  · refine List.pairwise_map.mpr (((List.pairwise_map.mp unique.1).and (unique.2 columns member)).imp_of_mem ?_)
    intro left right leftMember rightMember apart
    by_cases leftWritten : schema.id left = id
    · by_cases rightWritten : schema.id right = id
      · exact absurd (leftWritten.trans rightWritten.symm) apart.1
      · rw [if_pos leftWritten, if_neg rightWritten]
        exact fun agrees => clear right rightMember (sameId ▸ rightWritten) columns member (agree_symm agrees)
    · by_cases rightWritten : schema.id right = id
      · rw [if_neg leftWritten, if_pos rightWritten]
        exact clear left leftMember (sameId ▸ leftWritten) columns member
      · rw [if_neg leftWritten, if_neg rightWritten]
        exact apart.2

omit [DecidableEq γ] [DecidableEq ι] in
theorem Schema.Unique.append {records : List ρ} {record : ρ} (unique : schema.Unique records)
    (fresh : schema.id record ∉ records.map schema.id) (clear : schema.Clear records record) :
    schema.Unique (records ++ [record]) := by
  have others : ∀ other ∈ records, schema.id other ≠ schema.id record := fun other member same =>
    fresh (same ▸ List.mem_map_of_mem member)
  refine ⟨?_, fun columns member => ?_⟩
  · rw [List.map_append, List.map_singleton, List.nodup_append]
    refine ⟨unique.1, List.nodup_singleton _, ?_⟩
    intro id inside written listed same
    exact fresh (List.mem_singleton.mp listed ▸ same ▸ inside)
  · rw [List.pairwise_append]
    refine ⟨unique.2 columns member, List.pairwise_singleton _ _, ?_⟩
    intro other inside written listed
    rw [List.mem_singleton.mp listed]
    exact clear other inside (others other inside) columns member

omit [DecidableEq γ] [DecidableEq ι] in
/-- Changing columns outside of all constraints breaks none of them. -/
theorem Schema.Unique.map {records : List ρ} {change : ρ → ρ} (unique : schema.Unique records)
    (ids : ∀ record, schema.id (change record) = schema.id record)
    (reads : ∀ record, ∀ columns ∈ schema.uniques, ∀ column ∈ columns,
      schema.read (change record) column = schema.read record column) : schema.Unique (records.map change) := by
  refine ⟨?_, fun columns member => ?_⟩
  · have unchanged : schema.id ∘ change = schema.id := funext ids
    rw [List.map_map, unchanged]
    exact unique.1
  · refine List.pairwise_map.mpr ((unique.2 columns member).imp ?_)
    intro record other apart agrees
    refine apart (agree_eq_true.mpr fun column inside => ?_)
    have changed := agree_eq_true.mp agrees column inside
    rwa [reads record columns member column inside, reads other columns member column inside] at changed

variable {newId : List ι → ι} {conflict : OnConflict γ} {before after : Table schema}
  {values : γ → Option ν} {rows : List (γ → Option ν)}

namespace KeyedView

variable (keyed : KeyedView schema conflict κ π)

/-- The row is accepted, whether its key is stored already or not. -/
structure Writable (newId : List ι → ι) (table : Table schema) (values : γ → Option ν) : Prop where
  proper : keyed.proper values
  update : ∀ record ∈ table.records, (keyed.view record).1 = (keyed.entryOf values).1 →
    ∃ updated, schema.build (schema.id record) (overlay conflict.updates values (schema.read record)) = .ok updated ∧
      schema.Clear table.records updated
  insert : (∀ record ∈ table.records, (keyed.view record).1 ≠ (keyed.entryOf values).1) →
    ∃ inserted, schema.build (newId table.ids) values = .ok inserted ∧ schema.Clear table.records inserted

omit [DecidableEq ι] [DecidableEq κ] in
/-- Rows that give every column a value, in a table whose only constraint is the
key, are accepted as soon as their values are. -/
theorem Writable.of_complete {keyed : KeyedView schema conflict κ π} {newId : List ι → ι} {table : Table schema}
    {values : γ → Option ν} (proper : keyed.proper values) (accepted : ∀ id, ∃ record, schema.build id values = .ok record)
    (complete : ∀ record, (keyed.view record).1 = (keyed.entryOf values).1 →
      overlay conflict.updates values (schema.read record) = values)
    (single : ∀ columns ∈ schema.uniques, ∀ record other,
      agree columns (schema.read other) (schema.read record) = true → (keyed.view other).1 = (keyed.view record).1) :
    keyed.Writable newId table values where
  proper := proper
  update record member key := by
    obtain ⟨updated, built⟩ := accepted (schema.id record)
    have overlaid := complete record key
    have view := keyed.view_updated record values updated proper key (overlaid.symm ▸ built)
    refine ⟨updated, overlaid.symm ▸ built, fun other inside different columns constraint agrees => different ?_⟩
    have same := (single columns constraint updated other agrees).trans ((congrArg Prod.fst view).trans key.symm)
    rw [keyed.eq_of_key inside member same, schema.id_build built]
  insert absent := by
    obtain ⟨inserted, built⟩ := accepted (newId table.ids)
    have view := keyed.view_inserted _ values inserted proper built
    refine ⟨inserted, built, fun other inside _ columns constraint agrees => absent other inside ?_⟩
    exact (single columns constraint inserted other agrees).trans (congrArg Prod.fst view)

/-- The keys of the records that a statement has written do not occur in its
remaining rows. -/
def Untouched (table : Table schema) (touched : List ι) (rest : List (γ → Option ν)) : Prop :=
  ∀ record ∈ table.records, schema.id record ∈ touched → ∀ values ∈ rest,
    (keyed.view record).1 ≠ (keyed.entryOf values).1

variable {keyed}

omit [DecidableEq ι] [DecidableEq κ] in
theorem Untouched.written {touched : List ι} {rest : List (γ → Option ν)} {written : ρ} {id : ι}
    (untouched : keyed.Untouched before touched (values :: rest))
    (distinct : ∀ other ∈ rest, (keyed.entryOf values).1 ≠ (keyed.entryOf other).1)
    (entry : keyed.view written = keyed.entryOf values)
    (records : ∀ record ∈ after.records,
      record = written ∨ record ∈ before.records ∧ schema.id record ≠ id) :
    keyed.Untouched after (id :: touched) rest := by
  intro record member listed other inside
  rcases records record member with rfl | ⟨old, different⟩
  · rw [entry]
    exact distinct other inside
  · have earlier := (List.mem_cons.mp listed).resolve_left different
    exact untouched record old earlier other (List.mem_cons_of_mem _ inside)

omit [DecidableEq κ] in
theorem upsertRecord_exists (fresh : ∀ ids, newId ids ∉ ids) {touched : List ι} {rest : List (γ → Option ν)}
    (writable : keyed.Writable newId before values) (untouched : keyed.Untouched before touched (values :: rest))
    (distinct : ∀ other ∈ rest, (keyed.entryOf values).1 ≠ (keyed.entryOf other).1) :
    ∃ state, upsertRecord newId conflict (before, touched) values = .ok state ∧ keyed.Untouched state.1 state.2 rest := by
  unfold upsertRecord
  cases found : before.records.find? fun record => agree conflict.target (schema.read record) values with
  | some record =>
      have member := List.mem_of_find?_eq_some found
      have agrees := List.find?_some found
      have key := (keyed.agree_iff record values writable.proper).mp agrees
      obtain ⟨updated, built, clear⟩ := writable.update record member key
      have sameId := schema.id_build built
      have unique := before.unique.replace sameId clear
      have free : schema.id record ∉ touched := fun listed => untouched record member listed values (by simp) key
      simp only [if_neg free, built, bind, Except.bind, Table.check, dif_pos unique, pure, Except.pure]
      refine ⟨_, rfl, untouched.written distinct
        (keyed.view_updated record values updated writable.proper key built) ?_⟩
      intro other inside
      obtain ⟨old, earlier, rfl⟩ := List.mem_map.mp inside
      split
      · exact .inl rfl
      · rename_i different
        exact .inr ⟨earlier, different⟩
  | none =>
      have absent := List.find?_eq_none.mp found
      obtain ⟨inserted, built, clear⟩ := writable.insert fun record member key =>
        absent record member ((keyed.agree_iff record values writable.proper).mpr key)
      have unused : schema.id inserted ∉ before.records.map schema.id := by
        rw [schema.id_build built]
        exact fresh _
      have unique := before.unique.append unused clear
      simp only [built, bind, Except.bind, Table.check, dif_pos unique, pure, Except.pure]
      refine ⟨_, rfl, untouched.written distinct (keyed.view_inserted _ values inserted writable.proper built) ?_⟩
      intro other inside
      rcases List.mem_append.mp inside with old | new
      · exact .inr ⟨old, fun same => unused (same ▸ List.mem_map_of_mem old)⟩
      · exact .inl (List.mem_singleton.mp new)

omit [DecidableEq κ] in
/-- A statement goes through when each of its rows is writable in the table that
the rows before it leave, and no two of them have one key. -/
theorem upsert_exists (fresh : ∀ ids, newId ids ∉ ids) (fits : Table schema → List (γ → Option ν) → Prop)
    (writable : ∀ table values rest, fits table (values :: rest) → keyed.Writable newId table values)
    (kept : ∀ table values rest next, fits table (values :: rest) → Upserted newId conflict table values next →
      fits next rest)
    (distinct : (rows.map fun values => (keyed.entryOf values).1).Nodup) (ready : fits before rows) :
    ∃ after, before.upsert newId conflict rows = .ok after ∧ fits after [] := by
  obtain ⟨final, folded, done, _, _⟩ := foldlM_exists (upsertRecord newId conflict)
    (fun state rest => fits state.1 rest ∧ keyed.Untouched state.1 state.2 rest ∧
      (rest.map fun values => (keyed.entryOf values).1).Nodup)
    (by
      intro state values rest held
      obtain ⟨fitting, untouched, apart⟩ := held
      rw [List.map_cons, List.nodup_cons] at apart
      obtain ⟨next, step, untouched⟩ := upsertRecord_exists fresh (writable state.1 values rest fitting) untouched
        fun other inside same => apart.1 (List.mem_map.mpr ⟨other, inside, same.symm⟩)
      exact ⟨next, step, kept state.1 values rest next.1 fitting (upsertRecord_ok step), untouched, apart.2⟩)
    (before, []) ⟨ready, fun record member listed => absurd listed List.not_mem_nil, distinct⟩
  refine ⟨final.1, ?_, done⟩
  rw [Table.upsert, folded]
  rfl

omit [DecidableEq κ] in
/-- The same for rows that are made from items. -/
theorem upsert_map_exists {α : Type*} (fresh : ∀ ids, newId ids ∉ ids) (valuesOf : α → γ → Option ν) {items : List α}
    (fits : Table schema → List α → Prop)
    (writable : ∀ table item rest, fits table (item :: rest) → keyed.Writable newId table (valuesOf item))
    (kept : ∀ table item rest next, fits table (item :: rest) → Upserted newId conflict table (valuesOf item) next →
      fits next rest)
    (distinct : (items.map fun item => (keyed.entryOf (valuesOf item)).1).Nodup) (ready : fits before items) :
    ∃ after, before.upsert newId conflict (items.map valuesOf) = .ok after ∧ fits after [] := by
  obtain ⟨after, upserted, remaining, nothing, done⟩ := keyed.upsert_exists fresh
    (fun table rest => ∃ items, rest = items.map valuesOf ∧ fits table items)
    (by
      intro table values rest held
      obtain ⟨items, same, fitting⟩ := held
      obtain ⟨item, items, rfl, rfl, rfl⟩ := List.map_eq_cons_iff.mp same.symm
      exact writable table item items fitting)
    (by
      intro table values rest next held written
      obtain ⟨items, same, fitting⟩ := held
      obtain ⟨item, items, rfl, rfl, rfl⟩ := List.map_eq_cons_iff.mp same.symm
      exact ⟨items, rfl, kept table item items next fitting written⟩)
    (by rw [List.map_map]; exact distinct) ⟨items, rfl, ready⟩
  rw [eq_comm, List.map_eq_nil_iff] at nothing
  exact ⟨after, upserted, nothing ▸ done⟩

omit [DecidableEq κ] in
/-- Ids stay in their order, and with them whatever an update does not change. -/
theorem rest_extended (rest : ρ → τ)
    (kept : ∀ record values updated, keyed.proper values →
      schema.build (schema.id record) (overlay conflict.updates values (schema.read record)) = .ok updated →
      rest updated = rest record)
    (proper : ∀ values ∈ rows, keyed.proper values) (written : UpsertedAll newId conflict before rows after) :
    (before.records.map fun record => (schema.id record, rest record)) <+:
      after.records.map fun record => (schema.id record, rest record) := by
  induction written with
  | nil => exact List.prefix_rfl
  | @cons before middle after values rows first later induction =>
      refine List.IsPrefix.trans ?_ (induction fun other member => proper other (List.mem_cons_of_mem _ member))
      cases first with
      | updated record updated member agrees built records =>
          have unchanged : (before.records.map fun record => (schema.id record, rest record)) =
              middle.records.map fun record => (schema.id record, rest record) := by
            rw [records, List.map_map]
            refine List.map_congr_left fun other inside => ?_
            simp only [Function.comp_apply]
            split
            · rename_i same
              rw [Table.eq_of_id inside member same, schema.id_build built,
                kept record values updated (proper values (by simp)) built]
            · rfl
          exact unchanged ▸ List.prefix_rfl
      | inserted record absent built records =>
          rw [records, List.map_append]
          exact List.prefix_append _ _

/-- Rows whose entries the table holds already are written without any effect. -/
theorem records_eq (rest : ρ → τ)
    (kept : ∀ record values updated, keyed.proper values →
      schema.build (schema.id record) (overlay conflict.updates values (schema.read record)) = .ok updated →
      rest updated = rest record)
    (ext : ∀ record other, schema.id record = schema.id other → rest record = rest other →
      keyed.view record = keyed.view other → record = other)
    (proper : ∀ values ∈ rows, keyed.proper values) (written : UpsertedAll newId conflict before rows after)
    (fixed : (keyed.toMap before).setAll (rows.map keyed.entryOf) = keyed.toMap before) :
    after.records = before.records := by
  have views : after.records.map keyed.view = before.records.map keyed.view :=
    (keyed.toMap_upsertedAll proper written).trans (congrArg InsertionMap.entries fixed)
  have length : after.records.length = before.records.length := by
    simpa using congrArg List.length views
  have rests := (rest_extended rest kept proper written).eq_of_length (by simp [length])
  have both : (after.records.map fun record => ((schema.id record, rest record), keyed.view record)) =
      before.records.map fun record => ((schema.id record, rest record), keyed.view record) := by
    have zipped : ∀ records : List ρ, (records.map fun record => ((schema.id record, rest record), keyed.view record)) =
        (records.map fun record => (schema.id record, rest record)).zip (records.map keyed.view) :=
      fun _ => List.zip_map'.symm
    rw [zipped, zipped, rests, views]
  have injective : Function.Injective fun record : ρ => ((schema.id record, rest record), keyed.view record) := by
    intro record other same
    simp only [Prod.mk.injEq] at same
    exact ext record other same.1.1 same.1.2 same.2
  exact (List.map_injective_iff.mpr injective) both

omit [DecidableEq κ] in
/-- A row is not written over a record that the statement has written before. -/
theorem upsertRecord_touched {touched : List ι} {next : Table schema × List ι} (proper : keyed.proper values)
    (written : upsertRecord newId conflict (before, touched) values = .ok next) :
    (∃ record ∈ next.1.records, schema.id record ∈ next.2 ∧ (keyed.view record).1 = (keyed.entryOf values).1) ∧
    ∀ record ∈ before.records, schema.id record ∈ touched → (keyed.view record).1 ≠ (keyed.entryOf values).1 ∧
      record ∈ next.1.records ∧ schema.id record ∈ next.2 := by
  unfold upsertRecord at written
  split at written
  · rename_i found search
    have member := List.mem_of_find?_eq_some search
    have agrees := List.find?_some search
    have key := (keyed.agree_iff found values proper).mp agrees
    split at written
    · cases written
    · rename_i free
      obtain ⟨updated, built, written⟩ := bind_eq_ok.mp written
      obtain ⟨table, checked, same⟩ := bind_eq_ok.mp written
      cases same
      have records := Table.check_ok checked
      constructor
      · refine ⟨updated, records ▸ List.mem_map.mpr ⟨found, member, if_pos rfl⟩, ?_, ?_⟩
        · rw [schema.id_build built]
          exact List.mem_cons_self ..
        · exact congrArg Prod.fst (keyed.view_updated found values updated proper key built)
      · intro record inside listed
        have other : schema.id record ≠ schema.id found := fun same => free (same ▸ listed)
        refine ⟨fun same => other ?_, records ▸ List.mem_map.mpr ⟨record, inside, if_neg other⟩,
          List.mem_cons_of_mem _ listed⟩
        rw [keyed.eq_of_key inside member (same.trans key.symm)]
  · rename_i absent
    obtain ⟨inserted, built, written⟩ := bind_eq_ok.mp written
    obtain ⟨table, checked, same⟩ := bind_eq_ok.mp written
    cases same
    have records := Table.check_ok checked
    constructor
    · refine ⟨inserted, by rw [records]; simp, List.mem_cons_self .., ?_⟩
      exact congrArg Prod.fst (keyed.view_inserted _ values inserted proper built)
    · intro record inside listed
      refine ⟨fun same => List.find?_eq_none.mp absent record inside ((keyed.agree_iff record values proper).mpr same), ?_,
        List.mem_cons_of_mem _ listed⟩
      rw [records]
      exact List.mem_append_left _ inside

omit [DecidableEq κ] in
/-- A statement that went through had no two rows of one key. -/
theorem keys_of_upsert_ok (proper : ∀ values ∈ rows, keyed.proper values)
    (written : before.upsert newId conflict rows = .ok after) :
    (rows.map fun values => (keyed.entryOf values).1).Nodup := by
  suffices general : ∀ (table : Table schema) (touched : List ι) (final : Table schema × List ι),
      (∀ values ∈ rows, keyed.proper values) → rows.foldlM (upsertRecord newId conflict) (table, touched) = .ok final →
      (rows.map fun values => (keyed.entryOf values).1).Nodup ∧ ∀ record ∈ table.records, schema.id record ∈ touched →
        (keyed.view record).1 ∉ rows.map fun values => (keyed.entryOf values).1 by
    unfold Table.upsert at written
    cases folded : rows.foldlM (upsertRecord newId conflict) (before, []) with
    | error reason => rw [folded] at written; cases written
    | ok final => exact (general before [] final proper folded).1
  clear written proper
  induction rows with
  | nil => exact fun _ _ _ _ _ => ⟨List.nodup_nil, fun _ _ _ => List.not_mem_nil⟩
  | cons values rows induction =>
      intro table touched final proper folded
      rw [List.foldlM_cons] at folded
      obtain ⟨next, first, later⟩ := bind_eq_ok.mp folded
      obtain ⟨distinct, apart⟩ := induction next.1 next.2 final
        (fun other member => proper other (List.mem_cons_of_mem _ member)) later
      obtain ⟨⟨record, member, listed, key⟩, earlier⟩ := upsertRecord_touched (proper values (by simp)) first
      rw [List.map_cons, List.nodup_cons]
      refine ⟨⟨key ▸ apart record member listed, distinct⟩, fun other inside touchedOther => ?_⟩
      obtain ⟨different, kept, still⟩ := earlier other inside touchedOther
      rw [List.mem_cons, not_or]
      exact ⟨different, apart other kept still⟩

omit [DecidableEq ι] in
/-- The map over a table is the same lookup for any order of the records. -/
theorem get?_perm {table listed : Table schema} (same : listed.records.Perm table.records) (key : κ) :
    (keyed.toMap listed).get? key = (keyed.toMap table).get? key := by
  apply Option.ext
  intro value
  rw [InsertionMap.get?_eq_some, InsertionMap.get?_eq_some]
  exact (same.map keyed.view).mem_iff

end KeyedView

end Coverpin.Data
