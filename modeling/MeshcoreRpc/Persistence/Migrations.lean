import MeshcoreRpc.Lib.Crash
import MeshcoreRpc.Lib.Table
import MeshcoreRpc.Python

/-!
# Opening a database

`Store.__init__` runs `schema.sql` and then the migrations the file has not
seen.  Every statement of a script commits on its own, so an open that is cut
off leaves the effect of a prefix of its statements.  What matters of a file is
its catalog: tables with their columns, indexes, and the rows of
`schema_version`.
-/

namespace MeshcoreRpc

open Tables Coroutine Coro

structure Catalog where
  tables : Dict String (List String)
  indexes : List String
  versions : List ℤ

def Catalog.empty : Catalog := ⟨.empty, [], []⟩

inductive Ddl where
  | createTable (name : String) (columns : List String)
  | createIndex (name table column : String)
  | addColumn (table column : String)
  | insertVersion (version : ℤ)
  deriving DecidableEq

/-- `CREATE .. IF NOT EXISTS` leaves alone what is there; adding a column that
exists is an error, like anything about a table that does not. -/
def Ddl.apply : Ddl → Catalog → Except PyExc Catalog
  | createTable name columns, c =>
    match c.tables.get? name with
    | some _ => .ok c
    | none => .ok { c with tables := c.tables.set name columns }
  | createIndex name table column, c =>
    if name ∈ c.indexes then .ok c else
      match c.tables.get? table with
      | some columns =>
        if column ∈ columns then .ok { c with indexes := c.indexes ++ [name] }
        else .error .operationalError
      | none => .error .operationalError
  | addColumn table column, c =>
    match c.tables.get? table with
    | some columns =>
      if column ∈ columns then .error .operationalError
      else .ok { c with tables := c.tables.set table (columns ++ [column]) }
    | none => .error .operationalError
  | insertVersion version, c =>
    match c.tables.get? "schema_version" with
    | some _ => .ok { c with versions := c.versions ++ [version] }
    | none => .error .operationalError

/-- `schema.sql` -/
def schemaSql : List Ddl :=
  [.createTable "requests"
      ["id", "node_id", "type", "ttl_s", "received_at", "completed_at", "final_state",
        "error_code", "request_json", "response_json"],
    .createIndex "idx_req_received" "requests" "received_at",
    .createIndex "idx_req_node" "requests" "node_id",
    .createIndex "idx_req_final_state" "requests" "final_state",
    .createIndex "idx_req_completed" "requests" "completed_at",
    .createTable "request_events" ["id", "request_id", "node_id", "state", "detail", "ts"],
    .createIndex "idx_events_req" "request_events" "request_id",
    .createIndex "idx_events_ts" "request_events" "ts",
    .createTable "gateway_snapshots" ["id", "ts", "status", "health"],
    .createIndex "idx_gw_snap_ts" "gateway_snapshots" "ts",
    .createTable "nodes" ["node_id", "last_seen"],
    .createTable "schema_version" ["version"],
    .createTable "node_locations"
      ["node_id", "lat", "lon", "alt", "acc", "fix", "spd", "hdg", "ts", "source", "rssi", "snr"],
    .createIndex "idx_node_loc_ts" "node_locations" "ts",
    .createTable "node_battery" ["node_id", "pct", "voltage", "ts", "source"],
    .createTable "base_state" ["key", "value_json", "ts"]]

structure Migration where
  version : ℤ
  sql : List Ddl

/-- `_MIGRATIONS` -/
def migrations : List Migration :=
  [⟨2, [.addColumn "gateway_snapshots" "state", .addColumn "gateway_snapshots" "detail",
      .addColumn "gateway_snapshots" "since_ts"]⟩]

/-! ## `Store.__init__` -/

inductive OpenEff where
  | run (s : Ddl)
  | selectVersion

abbrev OpenEff.Answer : OpenEff → Type
  | run _ => Except PyExc Unit
  | selectVersion => Except PyExc (Option ℤ)

abbrev Opening := Coro OpenEff.Answer PyExc

def runDdl (s : Ddl) : Opening Unit := .await (.run s) fun r ↦ .ofOutcome r

/-- `SELECT version FROM schema_version ORDER BY version DESC LIMIT 1` -/
def selectVersion : Opening (Option ℤ) := .await .selectVersion fun r ↦ .ofOutcome r

def executescript : List Ddl → Opening Unit
  | [] => pure ()
  | s :: rest => do
    runDdl s
    executescript rest

def applyFrom : ℤ → List Migration → Opening Unit
  | _, [] => pure ()
  | current, m :: rest =>
    if m.version > current then do
      executescript m.sql
      runDdl (.insertVersion m.version)
      applyFrom m.version rest
    else applyFrom current rest

def applyMigrations : Opening Unit := do
  let row ← selectVersion
  let current := row.getD 0
  if current = 0 then
    runDdl (.insertVersion 1)
    applyFrom 1 migrations
  else
    applyFrom current migrations

def storeInit : Opening Unit := do
  executescript schemaSql
  applyMigrations

/-- The database file answers; the version row is stamped by a transaction of
one statement, so that each `run` is one commit. -/
def Catalog.respond : (e : OpenEff) → Catalog → e.Answer × Catalog
  | .run s, c =>
    match s.apply c with
    | .ok c' => (.ok (), c')
    | .error err => (.error err, c)
  | .selectVersion, c =>
    match c.tables.get? "schema_version" with
    | some _ => (.ok c.versions.max?, c)
    | none => (.error .operationalError, c)

/-! ## The shape of a file -/

/-- The columns the migrations add to `gateway_snapshots`. -/
def migratedColumns : List String := ["state", "detail", "since_ts"]

/-- The statement has had its effect. -/
def Ddl.InPlace : Ddl → Catalog → Prop
  | createTable name _, c => (c.tables.get? name).isSome
  | createIndex name _ _, c => name ∈ c.indexes
  | addColumn table column, c => ∃ columns, c.tables.get? table = some columns ∧ column ∈ columns
  | insertVersion version, c => version ∈ c.versions

/-- The columns of a table of `schema.sql` after `added` has been added to
`gateway_snapshots`. -/
def shapedColumns (added : List String) (name : String) (columns : List String) : List String :=
  if name = "gateway_snapshots" then columns ++ added else columns

theorem subset_shapedColumns (added : List String) (name : String) (columns : List String) :
    columns ⊆ shapedColumns added name columns := by
  rw [shapedColumns]
  split
  · exact List.subset_append_left _ _
  · exact List.Subset.refl _

/-- Every table of `schema.sql` that is there is as the script makes it, but for
the columns `added` to `gateway_snapshots`. -/
structure Shape (added : List String) (c : Catalog) : Prop where
  tables : ∀ name columns, .createTable name columns ∈ schemaSql →
    c.tables.get? name = none ∨ c.tables.get? name = some (shapedColumns added name columns)
  snapshots : added ≠ [] → (c.tables.get? "gateway_snapshots").isSome

/-- The two statements do not create one table with different columns. -/
def Ddl.agrees : Ddl → Ddl → Bool
  | .createTable n columns, .createTable n' columns' => n ≠ n' || columns = columns'
  | _, _ => true

theorem schemaSql_unique {name : String} {columns columns' : List String}
    (h : .createTable name columns ∈ schemaSql) (h' : .createTable name columns' ∈ schemaSql) :
    columns = columns' := by
  have hall : schemaSql.all (fun s ↦ schemaSql.all fun s' ↦ s.agrees s') = true := by decide
  have hagrees := List.all_eq_true.mp (List.all_eq_true.mp hall _ h) _ h'
  simpa [Ddl.agrees] using hagrees

/-- The statement creates the table with the column. -/
def Ddl.creates (table column : String) : Ddl → Bool
  | .createTable t columns => t = table && columns.contains column
  | _ => false

/-- The table and the column that the statement puts an index on. -/
def Ddl.indexed? : Ddl → Option (String × String)
  | .createIndex _ table column => some (table, column)
  | _ => none

theorem Ddl.creates_iff {s : Ddl} {table column : String} :
    s.creates table column = true ↔
      ∃ columns, s = .createTable table columns ∧ column ∈ columns := by
  cases s with
  | createTable t columns =>
      simp only [creates, Bool.and_eq_true, decide_eq_true_eq, List.contains_iff_mem]
      constructor
      · rintro ⟨rfl, hcol⟩
        exact ⟨columns, rfl, hcol⟩
      · rintro ⟨_, hs, hcol⟩
        cases hs
        exact ⟨rfl, hcol⟩
  | _ => simp [creates]

/-- Every index of the script is on a column of a table the script has created before. -/
theorem schemaSql_scoped {done rest : List Ddl} {name table column : String}
    (h : schemaSql = done ++ .createIndex name table column :: rest) :
    ∃ columns, .createTable table columns ∈ done ∧ column ∈ columns := by
  have hall : (List.range schemaSql.length).all (fun n ↦ (schemaSql[n]?.bind Ddl.indexed?).all
      fun p ↦ (schemaSql.take n).any (Ddl.creates p.1 p.2)) = true := by decide
  have hlen : done.length < schemaSql.length := by simp [h]
  have hthis := List.all_eq_true.mp hall _ (List.mem_range.mpr hlen)
  have hget : schemaSql[done.length]? = some (.createIndex name table column) := by simp [h]
  have htake : schemaSql.take done.length = done := by simp [h]
  rw [hget, htake] at hthis
  obtain ⟨s, hs, hcreates⟩ := List.any_eq_true.mp hthis
  obtain ⟨columns, rfl, hcol⟩ := Ddl.creates_iff.mp hcreates
  exact ⟨columns, hs, hcol⟩

theorem schemaSql_cases {s : Ddl} (h : s ∈ schemaSql) :
    (∃ name columns, s = .createTable name columns) ∨
      ∃ name table column, s = .createIndex name table column := by
  cases s with
  | createTable name columns => exact .inl ⟨name, columns, rfl⟩
  | createIndex name table column => exact .inr ⟨name, table, column, rfl⟩
  | addColumn table column => simp [schemaSql] at h
  | insertVersion version => simp [schemaSql] at h

namespace Ddl

variable {s s' : Ddl} {c c' : Catalog} {added : List String}

theorem apply_createTable_some {name : String} {columns columns' : List String}
    (h : c.tables.get? name = some columns') : (createTable name columns).apply c = .ok c := by
  rw [apply, h]

theorem apply_createTable_none {name : String} {columns : List String}
    (h : c.tables.get? name = none) :
    (createTable name columns).apply c = .ok { c with tables := c.tables.set name columns } := by
  rw [apply, h]

/-- What a statement that succeeds does. -/
inductive Applied (c : Catalog) : Ddl → Catalog → Prop
  /-- What it would create is there. -/
  | there {s : Ddl} (creates : ∀ version, s ≠ insertVersion version) : Applied c s c
  | table {name : String} {columns : List String} (fresh : c.tables.get? name = none) :
      Applied c (createTable name columns) { c with tables := c.tables.set name columns }
  | index {name table column : String} :
      Applied c (createIndex name table column) { c with indexes := c.indexes ++ [name] }
  | column {table column : String} {columns : List String}
      (old : c.tables.get? table = some columns) :
      Applied c (addColumn table column)
        { c with tables := c.tables.set table (columns ++ [column]) }
  | version {version : ℤ} :
      Applied c (insertVersion version) { c with versions := c.versions ++ [version] }

theorem apply_cases (h : s.apply c = .ok c') : Applied c s c' := by
  cases s with
  | createTable name columns =>
      cases hname : c.tables.get? name with
      | some old =>
          rw [apply_createTable_some hname] at h
          cases h
          exact .there (by simp)
      | none =>
          rw [apply_createTable_none hname] at h
          cases h
          exact .table hname
  | createIndex name table column =>
      simp only [apply] at h
      split at h
      · cases h
        exact .there (by simp)
      · split at h
        · split at h
          · cases h
            exact .index
          · cases h
        · cases h
  | addColumn table column =>
      simp only [apply] at h
      split at h
      · rename_i columns hold
        split at h
        · cases h
        · cases h
          exact .column hold
      · cases h
  | insertVersion version =>
      simp only [apply] at h
      split at h
      · cases h
        exact .version
      · cases h

/-- A table is there after a statement if it was before, with at least its columns. -/
theorem get?_grows (h : s.apply c = .ok c') {name : String} {columns : List String}
    (hget : c.tables.get? name = some columns) :
    ∃ columns', c'.tables.get? name = some columns' ∧ columns ⊆ columns' := by
  cases apply_cases h with
  | there => exact ⟨columns, hget, List.Subset.refl _⟩
  | @table name' columns' hfresh =>
      have hne : name ≠ name' := by
        rintro rfl
        rw [hget] at hfresh
        cases hfresh
      exact ⟨columns, (Dict.get?_set_ne c.tables hne columns').trans hget, List.Subset.refl _⟩
  | index => exact ⟨columns, hget, List.Subset.refl _⟩
  | @column table column columns' hold =>
      by_cases hname : name = table
      · subst hname
        rw [hget] at hold
        cases hold
        exact ⟨_, Dict.get?_set_self _ _ _, List.subset_append_left _ _⟩
      · exact ⟨columns, (Dict.get?_set_ne c.tables hname _).trans hget, List.Subset.refl _⟩
  | version => exact ⟨columns, hget, List.Subset.refl _⟩

theorem indexes_grow (h : s.apply c = .ok c') : c.indexes ⊆ c'.indexes := by
  cases apply_cases h with
  | index => exact List.subset_append_left _ _
  | _ => exact List.Subset.refl _

/-- Only the version row changes the versions. -/
theorem versions_of_apply (h : s.apply c = .ok c') :
    c'.versions = c.versions ++
      match s with
      | insertVersion version => [version]
      | _ => [] := by
  cases apply_cases h with
  | there hcreates =>
      cases s with
      | insertVersion version => exact absurd rfl (hcreates version)
      | _ => simp
  | version => rfl
  | _ => simp

theorem inPlace_stays (h : s.apply c = .ok c') (hs' : s'.InPlace c) : s'.InPlace c' := by
  cases s' with
  | createTable name columns =>
      obtain ⟨columns', hget⟩ := Option.isSome_iff_exists.mp hs'
      obtain ⟨_, hget', _⟩ := get?_grows h hget
      exact Option.isSome_iff_exists.mpr ⟨_, hget'⟩
  | createIndex name table column => exact indexes_grow h hs'
  | addColumn table column =>
      obtain ⟨columns, hget, hmem⟩ := hs'
      obtain ⟨columns', hget', hsub⟩ := get?_grows h hget
      exact ⟨columns', hget', hsub hmem⟩
  | insertVersion version =>
      change version ∈ c'.versions
      rw [versions_of_apply h]
      exact List.mem_append_left _ hs'

/-- A `CREATE .. IF NOT EXISTS` whose effect is there does nothing. -/
theorem apply_of_inPlace (hs : s ∈ schemaSql) (h : s.InPlace c) : s.apply c = .ok c := by
  rcases schemaSql_cases hs with ⟨name, columns, rfl⟩ | ⟨name, table, column, rfl⟩
  · obtain ⟨columns', hget⟩ := Option.isSome_iff_exists.mp h
    exact apply_createTable_some hget
  · exact if_pos h

/-- A statement of the script keeps the shape. -/
theorem shape_stays (hs : s ∈ schemaSql) (h : s.apply c = .ok c') (hshape : Shape added c) :
    Shape added c' := by
  rcases schemaSql_cases hs with ⟨name, columns, rfl⟩ | ⟨name, table, column, rfl⟩
  · cases apply_cases h with
    | there => exact hshape
    | table hname =>
        refine ⟨fun name' columns' hmem ↦ ?_, fun hadded ↦ ?_⟩
        · by_cases hn : name' = name
          · subst hn
            right
            have hplain : shapedColumns added name' columns' = columns' := by
              rw [shapedColumns]
              split
              · rename_i hgw
                have hnil : added = [] := by
                  by_contra hne
                  have := hshape.snapshots hne
                  rw [← hgw, hname] at this
                  cases this
                rw [hnil, List.append_nil]
              · rfl
            rw [hplain, schemaSql_unique hmem hs]
            exact Dict.get?_set_self _ _ _
          · rw [Dict.get?_set_ne c.tables hn columns]
            exact hshape.tables name' columns' hmem
        · have hsome := hshape.snapshots hadded
          by_cases hn : "gateway_snapshots" = name
          · rw [hn, Dict.get?_set_self]
            rfl
          · rwa [Dict.get?_set_ne c.tables hn columns]
  · have htables : c'.tables = c.tables := by
      cases apply_cases h with
      | there => rfl
      | index => rfl
    exact ⟨htables ▸ hshape.tables, htables ▸ hshape.snapshots⟩

theorem schema_step {done rest : List Ddl} (hsplit : schemaSql = done ++ s :: rest)
    (hdone : ∀ s ∈ done, s.InPlace c) (hshape : Shape added c) :
    ∃ c', s.apply c = .ok c' ∧ s.InPlace c' := by
  have hs : s ∈ schemaSql := by simp [hsplit]
  rcases schemaSql_cases hs with ⟨name, columns, rfl⟩ | ⟨name, table, column, rfl⟩
  · cases hname : c.tables.get? name with
    | some old => exact ⟨c, apply_createTable_some hname, Option.isSome_iff_exists.mpr ⟨old, hname⟩⟩
    | none =>
        refine ⟨_, apply_createTable_none hname, ?_⟩
        change (Dict.get? (c.tables.set name columns) name).isSome
        rw [Dict.get?_set_self]
        rfl
  · by_cases hname : name ∈ c.indexes
    · exact ⟨c, if_pos hname, hname⟩
    · obtain ⟨columns, hcreated, hcol⟩ := schemaSql_scoped hsplit
      have hmem : .createTable table columns ∈ schemaSql := by
        rw [hsplit]
        exact List.mem_append_left _ hcreated
      have hthere : c.tables.get? table = some (shapedColumns added table columns) := by
        rcases hshape.tables table columns hmem with hnone | hsome
        · have hin : (c.tables.get? table).isSome := hdone _ hcreated
          rw [hnone] at hin
          cases hin
        · exact hsome
      refine ⟨{ c with indexes := c.indexes ++ [name] }, ?_, List.mem_append_right _ (by simp)⟩
      rw [apply, if_neg hname, hthere]
      exact if_pos (subset_shapedColumns added table columns hcol)

end Ddl

/-! ## One open, cut off anywhere -/

section Open

variable {c c' : Catalog} {added : List String}

theorem guards_runDdl {s : Ddl} {Inv : Catalog → Prop} {Q : Except PyExc Unit → Catalog → Prop}
    (hc : Inv c) (hok : ∀ c', s.apply c = .ok c' → Inv c' ∧ Q (.ok ()) c')
    (herr : ∀ err, s.apply c = .error err → Q (.error err) c) :
    (runDdl s).Guards Catalog.respond Inv c Q := by
  refine ⟨hc, ?_⟩
  cases h : s.apply c with
  | ok c' =>
      simp only [Catalog.respond, h]
      exact hok c' h
  | error err =>
      simp only [Catalog.respond, h]
      exact ⟨hc, herr err h⟩

/-- All of `schema.sql` has had its effect. -/
def SchemaInPlace (c : Catalog) : Prop := ∀ s ∈ schemaSql, s.InPlace c

theorem SchemaInPlace.stays {s : Ddl} (h : SchemaInPlace c) (happly : s.apply c = .ok c') :
    SchemaInPlace c' :=
  fun s' hs' ↦ Ddl.inPlace_stays happly (h s' hs')

theorem guards_schema {done rest : List Ddl} (hsplit : schemaSql = done ++ rest)
    (hdone : ∀ s ∈ done, s.InPlace c) (hshape : Shape added c) :
    (executescript rest).Guards Catalog.respond
      (fun c' ↦ Shape added c' ∧ c'.versions = c.versions) c
      fun o c' ↦ o = .ok () ∧ SchemaInPlace c' ∧ Shape added c' ∧ c'.versions = c.versions := by
  induction rest generalizing done c with
  | nil =>
      refine guards_pure.mpr ⟨⟨hshape, rfl⟩, rfl, fun s hs ↦ hdone s ?_, hshape, rfl⟩
      rwa [hsplit, List.append_nil] at hs
  | cons s rest ih =>
      have hs : s ∈ schemaSql := by simp [hsplit]
      obtain ⟨c₁, happly, hin⟩ := Ddl.schema_step hsplit hdone hshape
      have hversions : c₁.versions = c.versions := by
        rcases schemaSql_cases hs with ⟨name, columns, rfl⟩ | ⟨name, table, column, rfl⟩
        · simpa using Ddl.versions_of_apply happly
        · simpa using Ddl.versions_of_apply happly
      rw [executescript, guards_bind]
      refine guards_runDdl ⟨hshape, rfl⟩ (fun c₂ h ↦ ?_) fun err h ↦ ?_
      · rw [happly] at h
        cases h
        have hshape₁ := Ddl.shape_stays hs happly hshape
        have hdone₁ : ∀ s' ∈ done ++ [s], s'.InPlace c₁ := by
          intro s' hs'
          rcases List.mem_append.mp hs' with hs' | hs'
          · exact Ddl.inPlace_stays happly (hdone s' hs')
          · exact List.mem_singleton.mp hs' ▸ hin
        have hrest := ih (by simp [hsplit]) hdone₁ hshape₁
        rw [hversions] at hrest
        exact ⟨⟨hshape₁, hversions⟩, hrest⟩
      · rw [happly] at h
        cases h

def snapshotColumns : List String := ["id", "ts", "status", "health"]

theorem Shape.snapshot_columns (h : Shape added c) (hall : SchemaInPlace c) :
    c.tables.get? "gateway_snapshots" = some (snapshotColumns ++ added) := by
  have hmem : .createTable "gateway_snapshots" snapshotColumns ∈ schemaSql := by
    simp [schemaSql, snapshotColumns]
  rcases h.tables _ _ hmem with hnone | hsome
  · have hin : (c.tables.get? "gateway_snapshots").isSome := hall _ hmem
    rw [hnone] at hin
    cases hin
  · exact hsome

theorem versions_table (hall : SchemaInPlace c) :
    ∃ columns, c.tables.get? "schema_version" = some columns :=
  Option.isSome_iff_exists.mp
    (hall (.createTable "schema_version" ["version"]) (by simp [schemaSql]))

/-- An `ALTER TABLE` of a migration that has not been run. -/
theorem alter_step {column : String} (h : Shape added c) (hall : SchemaInPlace c)
    (hnew : column ∉ snapshotColumns ++ added) :
    ∃ c', (Ddl.addColumn "gateway_snapshots" column).apply c = .ok c' ∧
      Shape (added ++ [column]) c' ∧ SchemaInPlace c' ∧ c'.versions = c.versions := by
  have hcols := h.snapshot_columns hall
  have happly : (Ddl.addColumn "gateway_snapshots" column).apply c = .ok { c with
      tables := c.tables.set "gateway_snapshots" (snapshotColumns ++ added ++ [column]) } := by
    rw [Ddl.apply, hcols]
    exact if_neg hnew
  refine ⟨_, happly, ⟨fun name columns hmem ↦ ?_, fun _ ↦ ?_⟩, hall.stays happly, rfl⟩
  · by_cases hn : name = "gateway_snapshots"
    · subst hn
      right
      have hsnap : columns = snapshotColumns := schemaSql_unique hmem (by
        simp [schemaSql, snapshotColumns])
      rw [hsnap, shapedColumns, if_pos rfl, ← List.append_assoc]
      exact Dict.get?_set_self _ _ _
    · have hother := h.tables name columns hmem
      rw [shapedColumns, if_neg hn] at hother ⊢
      rwa [Dict.get?_set_ne c.tables hn]
  · rw [Dict.get?_set_self]
    rfl

/-- What an open can leave behind, at whichever point it is cut off. -/
def LeftInv (c : Catalog) : Prop :=
  ∃ added, added <+: migratedColumns ∧ Shape added c ∧
    ((c.versions = [] ∧ added = []) ∨ c.versions = [1] ∨
      (c.versions = [1, 2] ∧ added = migratedColumns))

/-- A file with nothing left to do. -/
def UpToDate (c : Catalog) : Prop :=
  SchemaInPlace c ∧ Shape migratedColumns c ∧ c.versions = [1, 2]

theorem UpToDate.left (h : UpToDate c) : LeftInv c :=
  ⟨migratedColumns, List.prefix_rfl, h.2.1, .inr (.inr ⟨h.2.2, rfl⟩)⟩

theorem guards_alters {rest : List String} (hsplit : migratedColumns = added ++ rest)
    (h : Shape added c) (hall : SchemaInPlace c) (hversions : c.versions = [1]) :
    (executescript (rest.map (.addColumn "gateway_snapshots"))).Guards Catalog.respond LeftInv c
      fun o c' ↦ o = .ok () ∧ SchemaInPlace c' ∧ Shape migratedColumns c' ∧ c'.versions = [1] := by
  have hleft : LeftInv c := ⟨added, hsplit ▸ List.prefix_append _ _, h, .inr (.inl hversions)⟩
  induction rest generalizing added c with
  | nil =>
      rw [List.append_nil] at hsplit
      exact guards_pure.mpr ⟨hleft, rfl, hall, hsplit ▸ h, hversions⟩
  | cons column rest ih =>
      have hnew : column ∉ snapshotColumns ++ added := by
        have hnodup : (snapshotColumns ++ migratedColumns).Nodup := by decide
        rw [hsplit, ← List.append_assoc, List.nodup_append] at hnodup
        exact fun hmem ↦ hnodup.2.2 _ hmem _ (List.mem_cons_self ..) rfl
      obtain ⟨c₁, happly, hshape₁, hall₁, hversions₁⟩ := alter_step h hall hnew
      rw [List.map_cons, executescript, guards_bind]
      refine guards_runDdl hleft (fun c₂ h₂ ↦ ?_) fun err h₂ ↦ ?_
      · rw [happly] at h₂
        cases h₂
        have hsplit₁ : migratedColumns = added ++ [column] ++ rest := by simp [hsplit]
        have hversions₁ := hversions₁.trans hversions
        have hleft₁ : LeftInv c₁ :=
          ⟨_, hsplit₁ ▸ List.prefix_append _ _, hshape₁, .inr (.inl hversions₁)⟩
        exact ⟨hleft₁, ih hsplit₁ hshape₁ hall₁ hversions₁ hleft₁⟩
      · rw [happly] at h₂
        cases h₂

theorem insertVersion_step (version : ℤ) (h : Shape added c) (hall : SchemaInPlace c) :
    ∃ c', (Ddl.insertVersion version).apply c = .ok c' ∧ Shape added c' ∧ SchemaInPlace c' ∧
      c'.versions = c.versions ++ [version] := by
  obtain ⟨columns, htable⟩ := versions_table hall
  have happly : (Ddl.insertVersion version).apply c =
      .ok { c with versions := c.versions ++ [version] } := by
    rw [Ddl.apply, htable]
  exact ⟨_, happly, ⟨h.tables, h.snapshots⟩, hall.stays happly, rfl⟩

theorem guards_migrate (h : Shape [] c) (hall : SchemaInPlace c) (hversions : c.versions = [1]) :
    (applyFrom 1 migrations).Guards Catalog.respond LeftInv c
      fun o c' ↦ o = .ok () ∧ UpToDate c' := by
  have hfirst := guards_alters (List.nil_append migratedColumns).symm h hall hversions
  change (executescript (migratedColumns.map (.addColumn "gateway_snapshots")) >>= fun _ ↦
    runDdl (.insertVersion 2) >>= fun _ ↦ pure ()).Guards Catalog.respond LeftInv c _
  rw [guards_bind]
  refine hfirst.mono (fun _ h ↦ h) ?_
  rintro o c₁ ⟨rfl, hall₁, hshape₁, hversions₁⟩
  obtain ⟨c₂, happly, hshape₂, hall₂, hversions₂⟩ := insertVersion_step 2 hshape₁ hall₁
  rw [guards_bind]
  refine guards_runDdl ⟨migratedColumns, List.prefix_rfl, hshape₁, .inr (.inl hversions₁)⟩
    (fun c₃ h₃ ↦ ?_) fun err h₃ ↦ ?_
  · rw [happly] at h₃
    cases h₃
    rw [hversions₁] at hversions₂
    have hdone : UpToDate c₂ := ⟨hall₂, hshape₂, hversions₂⟩
    exact ⟨hdone.left, guards_pure.mpr ⟨hdone.left, rfl, hdone⟩⟩
  · rw [happly] at h₃
    cases h₃

/-- The columns of a migration are there, some of them at least, and its version
has not been stamped. -/
def MidMigration (c : Catalog) : Prop :=
  2 ∉ c.versions ∧
    ∃ column ∈ migratedColumns, column ∈ (c.tables.get? "gateway_snapshots").getD []

instance : Decidable (MidMigration c) := inferInstanceAs (Decidable (_ ∧ _))

theorem Shape.midMigration_iff (h : Shape added c) (hpre : added <+: migratedColumns) :
    MidMigration c ↔ 2 ∉ c.versions ∧ added ≠ [] := by
  refine and_congr_right fun _ ↦ ⟨?_, fun hadded ↦ ?_⟩
  · rintro ⟨column, hcolumn, hmem⟩ rfl
    rcases h.tables "gateway_snapshots" snapshotColumns (by simp [schemaSql, snapshotColumns]) with
      hnone | hsome
    · rw [hnone] at hmem
      cases hmem
    · rw [hsome, shapedColumns, if_pos rfl, List.append_nil, Option.getD_some] at hmem
      have hdisjoint : ∀ column ∈ migratedColumns, column ∉ snapshotColumns := by decide
      exact hdisjoint column hcolumn hmem
  · obtain ⟨column, rest, rfl⟩ := List.exists_cons_of_ne_nil hadded
    refine ⟨column, hpre.subset (List.mem_cons_self ..), ?_⟩
    rcases h.tables "gateway_snapshots" snapshotColumns (by simp [schemaSql, snapshotColumns]) with
      hnone | hsome
    · have hin := h.snapshots hadded
      rw [hnone] at hin
      cases hin
    · rw [hsome, shapedColumns, if_pos rfl]
      simp

/-- The next open runs into the first column of the migration again. -/
theorem guards_remigrate {column : String} {rest : List String} (h : Shape (column :: rest) c)
    (hpre : column :: rest <+: migratedColumns) (hall : SchemaInPlace c)
    (hversions : c.versions = [1]) :
    (applyFrom 1 migrations).Guards Catalog.respond LeftInv c
      fun o _ ↦ o = .error .operationalError := by
  have hleft : LeftInv c := ⟨_, hpre, h, .inr (.inl hversions)⟩
  have hfirst : column = "state" := (List.cons_prefix_cons.mp hpre).1
  subst hfirst
  have happly : (Ddl.addColumn "gateway_snapshots" "state").apply c = .error .operationalError := by
    rw [Ddl.apply, h.snapshot_columns hall]
    exact if_pos (by simp)
  change (executescript (.addColumn "gateway_snapshots" "state" ::
      ["detail", "since_ts"].map (.addColumn "gateway_snapshots")) >>= fun _ ↦
    runDdl (.insertVersion 2) >>= fun _ ↦ pure ()).Guards Catalog.respond LeftInv c _
  rw [guards_bind, executescript, guards_bind]
  refine guards_runDdl hleft (fun c₁ h₁ ↦ ?_) fun err h₁ ↦ ?_
  · rw [happly] at h₁
    cases h₁
  · rw [happly] at h₁
    cases h₁
    rfl

theorem guards_applyMigrations (h : Shape added c) (hpre : added <+: migratedColumns)
    (hall : SchemaInPlace c) (hversions : (c.versions = [] ∧ added = []) ∨ c.versions = [1] ∨
      (c.versions = [1, 2] ∧ added = migratedColumns)) :
    applyMigrations.Guards Catalog.respond LeftInv c fun o c' ↦
      if MidMigration c then o = .error .operationalError else o = .ok () ∧ UpToDate c' := by
  have hleft : LeftInv c := ⟨added, hpre, h, hversions⟩
  have hmid := h.midMigration_iff hpre
  obtain ⟨columns, htable⟩ := versions_table hall
  refine ⟨hleft, ?_⟩
  simp only [Catalog.respond, htable]
  rcases hversions with ⟨hv, rfl⟩ | hv | ⟨hv, rfl⟩
  · have hnot : ¬ MidMigration c := fun hm ↦ (hmid.mp hm).2 rfl
    simp only [hv, if_neg hnot]
    change (runDdl (.insertVersion 1) >>= fun _ ↦ applyFrom 1 migrations).Guards
      Catalog.respond LeftInv c _
    rw [guards_bind]
    obtain ⟨c₁, happly, hshape₁, hall₁, hversions₁⟩ := insertVersion_step 1 h hall
    refine guards_runDdl hleft (fun c₂ h₂ ↦ ?_) fun err h₂ ↦ ?_
    · rw [happly] at h₂
      cases h₂
      rw [hv] at hversions₁
      exact ⟨⟨[], hpre, hshape₁, .inr (.inl hversions₁)⟩, guards_migrate hshape₁ hall₁ hversions₁⟩
    · rw [happly] at h₂
      cases h₂
  · rw [hv]
    change (applyFrom 1 migrations).Guards Catalog.respond LeftInv c _
    cases added with
    | nil =>
        have hnot : ¬ MidMigration c := fun hm ↦ (hmid.mp hm).2 rfl
        simp only [if_neg hnot]
        exact guards_migrate h hall hv
    | cons column rest =>
        have hm : MidMigration c := hmid.mpr ⟨by simp [hv], by simp⟩
        simp only [if_pos hm]
        exact guards_remigrate h hpre hall hv
  · have hnot : ¬ MidMigration c := fun hm ↦ (hmid.mp hm).1 (by simp [hv])
    simp only [hv, if_neg hnot]
    change (applyFrom 2 migrations).Guards Catalog.respond LeftInv c _
    exact guards_pure.mpr ⟨hleft, rfl, hall, h, hv⟩

/-- What an open does with a file an earlier one has left. -/
theorem guards_storeInit (h : LeftInv c) :
    storeInit.Guards Catalog.respond LeftInv c fun o c' ↦
      if MidMigration c then o = .error .operationalError else o = .ok () ∧ UpToDate c' := by
  obtain ⟨added, hpre, hshape, hversions⟩ := h
  rw [storeInit, guards_bind]
  refine (guards_schema (List.nil_append schemaSql).symm (by simp) hshape).mono ?_ ?_
  · rintro c' ⟨hshape', hversions'⟩
    exact ⟨added, hpre, hshape', hversions' ▸ hversions⟩
  · rintro o c' ⟨rfl, hall, hshape', hversions'⟩
    have hsame : MidMigration c' ↔ MidMigration c := by
      rw [hshape'.midMigration_iff hpre, hshape.midMigration_iff hpre, hversions']
    have hrest := guards_applyMigrations hshape' hpre hall (hversions' ▸ hversions)
    simpa only [hsame] using hrest

theorem executescript_inPlace {script : List Ddl} (hscript : script ⊆ schemaSql)
    (hall : SchemaInPlace c) : (executescript script).eval Catalog.respond c = (.ok (), c) := by
  induction script with
  | nil => rfl
  | cons s rest ih =>
      obtain ⟨hs, hrest⟩ := List.cons_subset.mp hscript
      have happly := Ddl.apply_of_inPlace hs (hall s hs)
      rw [executescript, eval_bind]
      simpa [runDdl, Catalog.respond, happly] using ih hrest

theorem UpToDate.reopen (h : UpToDate c) :
    storeInit.eval Catalog.respond c = (.ok (), c) := by
  obtain ⟨hall, hshape, hversions⟩ := h
  obtain ⟨columns, htable⟩ := versions_table hall
  rw [storeInit, eval_bind, executescript_inPlace (List.Subset.refl _) hall]
  have hselect : selectVersion.eval Catalog.respond c = (.ok (some 2), c) := by
    simp only [selectVersion, eval_await, Catalog.respond, htable, eval_ofOutcome, hversions]
    rfl
  simp only [applyMigrations, eval_bind, hselect]
  rfl

/-- The files an open can find: none, one of an earlier release (any part of
today's schema, with or without its stamp), or what an open has left, cut off
at any point or run to its end. -/
inductive LeftBehind : Catalog → Prop
  | earlier {script : List Ddl} (h : script.Sublist (schemaSql ++ [.insertVersion 1]))
      {c : Catalog} (hrun : (executescript script).eval Catalog.respond .empty = (.ok (), c)) :
      LeftBehind c
  | opened {c c' : Catalog} (past : LeftBehind c) (h : c' ∈ storeInit.states Catalog.respond c) :
      LeftBehind c'

theorem Shape.executescript {script : List Ddl} (hscript : script ⊆ schemaSql)
    (h : Shape added c) (hrun : (executescript script).eval Catalog.respond c = (.ok (), c')) :
    Shape added c' ∧ c'.versions = c.versions := by
  induction script generalizing c with
  | nil =>
      cases hrun
      exact ⟨h, rfl⟩
  | cons s rest ih =>
      obtain ⟨hs, hrest⟩ := List.cons_subset.mp hscript
      cases happly : s.apply c with
      | error err => simp [MeshcoreRpc.executescript, runDdl, Catalog.respond, happly] at hrun
      | ok c₁ =>
          have hrun₁ : (MeshcoreRpc.executescript rest).eval Catalog.respond c₁ = (.ok (), c') := by
            simpa [MeshcoreRpc.executescript, runDdl, Catalog.respond, happly] using hrun
          obtain ⟨hshape', hversions'⟩ := ih hrest (Ddl.shape_stays hs happly h) hrun₁
          have hversions := Ddl.versions_of_apply happly
          rcases schemaSql_cases hs with ⟨name, columns, rfl⟩ | ⟨name, table, column, rfl⟩
          · exact ⟨hshape', by simpa [hversions'] using hversions⟩
          · exact ⟨hshape', by simpa [hversions'] using hversions⟩

theorem eval_executescript_append (script rest : List Ddl) :
    (executescript (script ++ rest)).eval Catalog.respond c =
      match (executescript script).eval Catalog.respond c with
      | (.ok _, c') => (executescript rest).eval Catalog.respond c'
      | (.error err, c') => (.error err, c') := by
  induction script generalizing c with
  | nil => rfl
  | cons s script ih =>
      simp only [List.cons_append, executescript, eval_bind]
      rcases (runDdl s).eval Catalog.respond c with ⟨_ | _, c₁⟩
      · rfl
      · exact ih

/-- Every file an open can find is as an open can have left it. -/
theorem LeftBehind.left (h : LeftBehind c) : LeftInv c := by
  induction h with
  | opened past h ih => exact (guards_iff.mp (guards_storeInit ih)).1 _ h
  | @earlier script h c hrun =>
      have hempty : Shape [] Catalog.empty := ⟨fun _ _ _ ↦ .inl rfl, fun hne ↦ (hne rfl).elim⟩
      obtain ⟨schema, stamp, rfl, hschema, hstamp⟩ := List.sublist_append_iff.mp h
      rw [eval_executescript_append] at hrun
      cases hfirst : (executescript schema).eval Catalog.respond .empty with
      | mk o c₁ =>
          rw [hfirst] at hrun
          cases o with
          | error err => cases hrun
          | ok _ =>
              obtain ⟨hshape, hversions⟩ := hempty.executescript hschema.subset hfirst
              rcases List.sublist_singleton.mp hstamp with rfl | rfl
              · cases hrun
                exact ⟨[], List.nil_prefix, hshape, .inl ⟨hversions, rfl⟩⟩
              · cases htable : c₁.tables.get? "schema_version" with
                | none => simp [executescript, runDdl, Catalog.respond, Ddl.apply, htable] at hrun
                | some columns =>
                    simp only [executescript, runDdl, eval_bind, eval_await, Catalog.respond,
                      Ddl.apply, htable, eval_ofOutcome, eval_pure, Prod.mk.injEq, true_and] at hrun
                    subst hrun
                    refine ⟨[], List.nil_prefix, ⟨hshape.tables, hshape.snapshots⟩, .inr (.inl ?_)⟩
                    rw [hversions]
                    rfl

/-- An open succeeds, ends at the highest version with every migrated column
once, and a second one changes nothing. -/
def Opens (c : Catalog) : Prop :=
  ∃ c', storeInit.eval Catalog.respond c = (.ok (), c') ∧
    c'.versions.max? = (migrations.map Migration.version).max? ∧
    (∀ column ∈ migratedColumns,
      ((c'.tables.get? "gateway_snapshots").getD []).count column = 1) ∧
    storeInit.eval Catalog.respond c' = (.ok (), c')

theorem opens_iff (h : LeftBehind c) : Opens c ↔ ¬ MidMigration c := by
  have hopen := (guards_iff.mp (guards_storeInit h.left)).2
  constructor
  · rintro ⟨c', hrun, _⟩ hm
    rw [hrun] at hopen
    simp [hm] at hopen
  · intro hm
    rw [if_neg hm] at hopen
    obtain ⟨hok, hdone⟩ := hopen
    refine ⟨_, Prod.ext hok rfl, ?_, fun column hcolumn ↦ ?_, hdone.reopen⟩
    · rw [hdone.2.2]
      rfl
    · rw [hdone.2.1.snapshot_columns hdone.1, Option.getD_some]
      have hcount : ∀ column ∈ migratedColumns,
          (snapshotColumns ++ migratedColumns).count column = 1 := by decide
      exact hcount column hcolumn

end Open

/-- What the first open of a new file leaves when it is cut off after `n` statements. -/
def cutOff (n : ℕ) : Catalog := ((storeInit.states Catalog.respond .empty)[n]?).getD .empty

theorem leftBehind_cutOff {n : ℕ} (h : n < (storeInit.states Catalog.respond .empty).length) :
    LeftBehind (cutOff n) := by
  have hget : (storeInit.states Catalog.respond .empty)[n]? = some (cutOff n) := by
    rw [cutOff, List.getElem?_eq_getElem h, Option.getD_some]
  have hnew : LeftBehind .empty := .earlier (List.nil_sublist _) rfl
  exact .opened hnew (List.mem_of_getElem? hget)

/-- A file opens that an earlier open has stamped with version 1 and got no further. -/
theorem stamped_opens : (cutOff 18).versions = [1] ∧ Opens (cutOff 18) :=
  ⟨by decide, (opens_iff (leftBehind_cutOff (by decide))).mpr (by decide)⟩

/-- The first `ALTER TABLE` is done and version 2 not stamped. -/
theorem cutOff_never_opens : ¬ ∀ c, LeftBehind c → Opens c := by
  intro h
  obtain ⟨c', hrun, _⟩ := h (cutOff 19) (leftBehind_cutOff (by decide))
  have hraise : (storeInit.eval Catalog.respond (cutOff 19)).1 = .error .operationalError := rfl
  rw [hrun] at hraise
  cases hraise

end MeshcoreRpc
