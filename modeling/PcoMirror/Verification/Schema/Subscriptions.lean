import Mathlib.Data.List.Forall2
import PcoMirror.Model.Schema.Subscriptions

/-! What a start leaves of the webhook subscriptions, and of those an older release wrote, when
starts are stopped anywhere. -/

namespace PcoMirror.Schema

variable {now : String} {c c' : Catalog} {t : Table} {e : Elsewhere} {xs ys : List Statement}

/-! ## Statements that keep a property -/

/-- A statement goes through wherever a property holds, and keeps it. -/
def Keeps (now : String) (P : Catalog → Prop) (statement : Statement) : Prop :=
  ∀ c, P c → ∃ c', exec now c statement = some c' ∧ P c'

theorem keeps_other (P : Catalog → Prop) : Keeps now P .other :=
  fun c hc => ⟨c, rfl, hc⟩

theorem keeps_others (now : String) (P : Catalog → Prop) (n : ℕ) :
    ∀ x ∈ List.replicate n Statement.other, Keeps now P x := by
  intro x hx
  rw [List.eq_of_mem_replicate hx]
  exact keeps_other P

theorem execAll_cons {statement : Statement} (h : exec now c statement = some c') :
    execAll now c (statement :: xs) = execAll now c' xs := by
  rw [execAll, h]

theorem execAll_take_succ {statement : Statement} (h : exec now c statement = some c') (n : ℕ) :
    execAll now c ((statement :: xs).take (n + 1)) = execAll now c' (xs.take n) := by
  rw [List.take_succ_cons, execAll_cons h]

variable {P : Catalog → Prop}

theorem execAll_keeps (hkeep : ∀ x ∈ xs, Keeps now P x) (hc : P c) : P (execAll now c xs) := by
  induction xs generalizing c with
  | nil => exact hc
  | cons x xs ih =>
      rw [List.forall_mem_cons] at hkeep
      obtain ⟨c', hexec, hc'⟩ := hkeep.1 c hc
      rw [execAll_cons hexec]
      exact ih hkeep.2 hc'

theorem execAll_take_keeps (hkeep : ∀ x ∈ xs, Keeps now P x) (hc : P c) (n : ℕ) :
    P (execAll now c (xs.take n)) :=
  execAll_keeps (fun x hx => hkeep x (List.mem_of_mem_take hx)) hc

/-- A part of a script that keeps a property hands it on to the rest. -/
theorem execAll_append (hkeep : ∀ x ∈ xs, Keeps now P x) (hc : P c) :
    ∃ c', P c' ∧ ∀ ys, execAll now c (xs ++ ys) = execAll now c' ys := by
  induction xs generalizing c with
  | nil => exact ⟨c, hc, fun _ => rfl⟩
  | cons x xs ih =>
      rw [List.forall_mem_cons] at hkeep
      obtain ⟨c₁, hexec, hc₁⟩ := hkeep.1 c hc
      obtain ⟨c', hc', hrest⟩ := ih hkeep.2 hc₁
      refine ⟨c', hc', fun ys => ?_⟩
      rw [List.cons_append, execAll_cons hexec, hrest]

/-- However much of a script runs: a part that keeps a property, and then the rest. -/
theorem execAll_take_append {R : Catalog → Prop} (hkeep : ∀ x ∈ xs, Keeps now P x) (hc : P c)
    (hrest : ∀ c', P c' → ∀ m, R (execAll now c' (ys.take m))) (n : ℕ) :
    R (execAll now c ((xs ++ ys).take n)) := by
  obtain ⟨c', hc', hexec⟩ := execAll_append
    (show ∀ x ∈ xs.take n, Keeps now P x from fun x hx => hkeep x (List.mem_of_mem_take hx)) hc
  rw [List.take_append, hexec]
  exact hrest c' hc' _

theorem execAll_take_cons {R : Catalog → Prop} {x : Statement} (hexec : exec now c x = some c')
    (hstart : R c) (hrest : ∀ m, R (execAll now c' (ys.take m))) (n : ℕ) :
    R (execAll now c ((x :: ys).take n)) := by
  cases n with
  | zero => exact hstart
  | succ n =>
      rw [List.take_succ_cons, execAll_cons hexec]
      exact hrest n

/-! ## Indexes -/

def Catalog.indexesOn (c : Catalog) (table : String) : List Index :=
  c.indexes.filter (·.table = table)

/-- The indexes of the subscriptions are a fresh database's, or still to be created. -/
structure TokenIndexed (c : Catalog) : Prop where
  only : ∀ index ∈ c.indexes, index.name = tokenIndex.name → index = tokenIndex
  indexes : c.indexesOn "webhook_subscription" = [] ∨
    c.indexesOn "webhook_subscription" = [tokenIndex]

theorem mem_indexesOn {index : Index} {table : String} :
    index ∈ c.indexesOn table ↔ index ∈ c.indexes ∧ index.table = table := by
  simp [Catalog.indexesOn]

theorem TokenIndexed.mem_iff (h : TokenIndexed c) :
    tokenIndex ∈ c.indexes ↔ c.indexesOn "webhook_subscription" = [tokenIndex] := by
  have hmem : tokenIndex ∈ c.indexes ↔ tokenIndex ∈ c.indexesOn "webhook_subscription" :=
    ⟨fun h => mem_indexesOn.mpr ⟨h, rfl⟩, fun h => (mem_indexesOn.mp h).1⟩
  rw [hmem]
  rcases h.indexes with h | h <;> simp [h]

/-- The index is created where its name is free, and is there either way. -/
theorem exec_tokenIndex (now : String) (h : TokenIndexed c)
    (ht : c.tables.lookup "webhook_subscription" = some t)
    (hcolumns : tokenIndex.columns.all (· ∈ t.names) = true) :
    ∃ c', exec now c (.createIndex tokenIndex) = some c' ∧ c'.tables = c.tables ∧ TokenIndexed c' ∧
      tokenIndex ∈ c'.indexes ∧ ∀ index ∈ c'.indexes, index = tokenIndex ∨ index ∈ c.indexes := by
  have hlookup : c.tables.lookup tokenIndex.table = some t := ht
  by_cases htaken : c.indexes.any (·.name = tokenIndex.name) = true
  · obtain ⟨index, hmem, hname⟩ := List.any_eq_true.mp htaken
    have hindex := h.only index hmem (of_decide_eq_true hname)
    refine ⟨c, ?_, rfl, h, hindex ▸ hmem, fun _ h => .inr h⟩
    simp [exec, hlookup, htaken]
  · have hfree : tokenIndex ∉ c.indexes := fun hmem =>
      htaken (List.any_eq_true.mpr ⟨tokenIndex, hmem, by simp⟩)
    refine ⟨{ c with indexes := c.indexes ++ [tokenIndex] }, ?_, rfl, ⟨?_, .inr ?_⟩, by simp, ?_⟩
    · simp only [exec, hlookup, Option.bind_eq_bind, Option.bind_some, if_neg htaken,
        if_pos hcolumns]
    · intro index hindex hname
      rcases List.mem_append.mp hindex with hmem | hmem
      · exact h.only index hmem hname
      · exact List.mem_singleton.mp hmem
    · have hnone : c.indexesOn "webhook_subscription" = [] :=
        h.indexes.resolve_right fun hone => hfree (h.mem_iff.mpr hone)
      rw [Catalog.indexesOn] at hnone ⊢
      rw [List.filter_append, hnone]
      rfl
    · intro index hindex
      rcases List.mem_append.mp hindex with hmem | hmem
      · exact .inr hmem
      · exact .inl (List.mem_singleton.mp hmem)

theorem tokenUnique_eq_false (h : c.indexesOn "webhook_subscription" = [] ∨
      c.indexesOn "webhook_subscription" = [tokenIndex])
    (hcolumns : t.columns = subscriptionColumns) : tokenUnique c t = false := by
  rw [tokenUnique, hcolumns, Bool.or_eq_false_iff]
  refine ⟨by decide, List.any_eq_false.mpr fun index hindex => ?_⟩
  by_cases htable : index.table = "webhook_subscription"
  · have hmem := mem_indexesOn.mpr ⟨hindex, htable⟩
    rcases h with h | h
    · rw [h] at hmem
      cases hmem
    · rw [h] at hmem
      rw [List.mem_singleton.mp hmem]
      decide
  · simp [htable]

/-! ## The schema script -/

/-- What the script of the schema does, where the table and then the index go through. -/
structure Creates (now : String) (P P' Q : Catalog → Prop) : Prop where
  table : ∀ c, P c →
    ∃ c', exec now c (.createTable "webhook_subscription" subscriptionColumns) = some c' ∧ P' c'
  index : ∀ c, P' c → ∃ c', exec now c (.createIndex tokenIndex) = some c' ∧ Q c'

variable {P' Q : Catalog → Prop}

theorem Creates.append (h : Creates now P P' Q) (hc : P c) (e : Elsewhere) :
    ∃ c', Q c' ∧ ∀ ys, execAll now c (schemaSql e ++ ys) = execAll now c' ys := by
  obtain ⟨c₁, hc₁, hbefore⟩ := execAll_append (keeps_others now P e.registry) hc
  obtain ⟨c₂, htable, hc₂⟩ := h.table c₁ hc₁
  obtain ⟨c₃, hindex, hc₃⟩ := h.index c₂ hc₂
  obtain ⟨c', hc', hafter⟩ := execAll_append (keeps_others now Q e.operational) hc₃
  refine ⟨c', hc', fun ys => ?_⟩
  rw [schemaSql, List.append_assoc, List.append_assoc, hbefore, subscriptionDdl, List.cons_append,
    execAll_cons htable, List.cons_append, execAll_cons hindex, List.nil_append, hafter]

theorem Creates.take {R : Catalog → Prop} (h : Creates now P P' Q) (hc : P c) (e : Elsewhere)
    (hP : ∀ c, P c → R c) (hP' : ∀ c, P' c → R c)
    (hrest : ∀ c', Q c' → ∀ m, R (execAll now c' (ys.take m))) (n : ℕ) :
    R (execAll now c ((schemaSql e ++ ys).take n)) := by
  rw [schemaSql, List.append_assoc, List.append_assoc]
  refine execAll_take_append (keeps_others now P e.registry) hc (fun c₁ hc₁ => ?_) n
  obtain ⟨c₂, htable, hc₂⟩ := h.table c₁ hc₁
  obtain ⟨c₃, hindex, hc₃⟩ := h.index c₂ hc₂
  refine execAll_take_cons htable (hP c₁ hc₁) fun m => ?_
  refine execAll_take_cons hindex (hP' c₂ hc₂) (fun m => ?_) m
  exact execAll_take_append (keeps_others now Q e.operational) hc₃ hrest m

/-! ## What an older release wrote -/

/-- The columns of an older release: the receivers' tokens are unique. -/
def legacyColumns : List Column :=
  subscriptionColumns.map fun col =>
    if col.name = "url_token" then { col with unique := true } else col

/-- A database of an older release, whose subscriptions these are. -/
structure Legacy (t : Table) (c : Catalog) : Prop where
  table : c.tables.lookup "webhook_subscription" = some t
  /-- The columns in any order, with `managed` or without. -/
  columns : t.columns.Perm legacyColumns ∨
    t.columns.Perm (legacyColumns.filter (·.name ≠ "managed"))
  valid : t.Valid
  spare : c.tables.lookup "webhook_subscription_old" = none
  indexed : TokenIndexed c
  placed : ∀ index ∈ c.indexes, index.table ≠ "webhook_subscription_old"

theorem Legacy.column (h : Legacy t c) {col : Column} (hcol : col ∈ subscriptionColumns)
    (hname : col.name ≠ "managed") : ∃ col' ∈ t.columns, col'.name = col.name ∧
      col'.notNull = col.notNull ∧ col'.primaryKey = col.primaryKey := by
  have hall : ∀ col ∈ subscriptionColumns, col.name ≠ "managed" →
      ∃ col' ∈ legacyColumns.filter (·.name ≠ "managed"), col'.name = col.name ∧
        col'.notNull = col.notNull ∧ col'.primaryKey = col.primaryKey := by decide
  obtain ⟨col', hcol', hsame⟩ := hall col hcol hname
  rcases h.columns with hperm | hperm
  · exact ⟨col', hperm.mem_iff.mpr (List.mem_of_mem_filter hcol'), hsame⟩
  · exact ⟨col', hperm.mem_iff.mpr hcol', hsame⟩

theorem Legacy.mem_names (h : Legacy t c) {col : Column} (hcol : col ∈ subscriptionColumns)
    (hname : col.name ≠ "managed") : col.name ∈ t.names := by
  obtain ⟨col', hcol', hsame, -⟩ := h.column hcol hname
  exact hsame ▸ List.mem_map_of_mem hcol'

theorem Legacy.tokenUnique (h : Legacy t c) : tokenUnique c t = true := by
  have htoken : (⟨"url_token", "TEXT", true, true, false, .value .null⟩ : Column) ∈ t.columns := by
    rcases h.columns with hperm | hperm
    · exact hperm.mem_iff.mpr (by decide)
    · exact hperm.mem_iff.mpr (by decide)
  rw [Schema.tokenUnique, Bool.or_eq_true]
  exact .inl (List.any_eq_true.mpr ⟨_, htoken, by decide⟩)

theorem Legacy.indexable (h : Legacy t c) : tokenIndex.columns.all (· ∈ t.names) = true := by
  have hnames : ∀ name ∈ tokenIndex.columns, ∃ col ∈ subscriptionColumns,
      col.name ≠ "managed" ∧ col.name = name := by decide
  refine List.all_eq_true.mpr fun name hname => decide_eq_true ?_
  obtain ⟨col, hcol, hmanaged, rfl⟩ := hnames name hname
  exact h.mem_names hcol hmanaged

theorem Legacy.keeps_createTable (t : Table) (columns : List Column) :
    Keeps now (Legacy t) (.createTable "webhook_subscription" columns) := by
  intro c hc
  refine ⟨c, ?_, hc⟩
  simp [exec, hc.table]

theorem Legacy.exec_tokenIndex (h : Legacy t c) :
    ∃ c', exec now c (.createIndex tokenIndex) = some c' ∧ Legacy t c' ∧
      tokenIndex ∈ c'.indexes := by
  obtain ⟨c', hexec, htables, hindexed, hmem, hfrom⟩ :=
    Schema.exec_tokenIndex now h.indexed h.table h.indexable
  refine ⟨c', hexec, ⟨htables ▸ h.table, h.columns, h.valid, htables ▸ h.spare, hindexed, ?_⟩, hmem⟩
  intro index hindex
  rcases hfrom index hindex with rfl | hindex
  · decide
  · exact h.placed index hindex

/-! ## A rebuild that was stopped -/

/-- The old table still stands under its other name, and keeps the index. -/
structure Stranded (c : Catalog) : Prop where
  taken : ∃ index ∈ c.indexes, index.name = tokenIndex.name
  bare : c.indexesOn "webhook_subscription" = []
  columns : ∀ t, c.tables.lookup "webhook_subscription" = some t → t.columns = subscriptionColumns

theorem Stranded.exec_createTable (h : Stranded c) :
    ∃ c', exec now c (.createTable "webhook_subscription" subscriptionColumns) = some c' ∧
      Stranded c' ∧ (c'.tables.lookup "webhook_subscription").isSome = true := by
  cases htable : c.tables.lookup "webhook_subscription" with
  | some t =>
      refine ⟨c, ?_, h, by rw [htable]; rfl⟩
      simp [exec, htable]
  | none =>
      refine ⟨_, if_neg (by rw [htable]; exact Bool.false_ne_true), ⟨h.taken, h.bare, ?_⟩, by simp⟩
      intro t ht
      rw [AList.lookup_insert] at ht
      cases ht
      rfl

/-- A stranded table is created anew, and gets no index: the name is taken. -/
theorem Stranded.creates (now : String) : Creates now Stranded
    (fun c => Stranded c ∧ (c.tables.lookup "webhook_subscription").isSome = true) Stranded where
  table c hc := hc.exec_createTable
  index c hc := by
    obtain ⟨t, ht⟩ := Option.isSome_iff_exists.mp hc.2
    obtain ⟨index, hmem, hname⟩ := hc.1.taken
    have htaken : c.indexes.any (·.name = tokenIndex.name) = true :=
      List.any_eq_true.mpr ⟨index, hmem, decide_eq_true hname⟩
    have hlookup : c.tables.lookup tokenIndex.table = some t := ht
    refine ⟨c, ?_, hc.1⟩
    simp [exec, hlookup, htaken]

theorem reconcileOps_eq_nil (h : ∀ t, c.tables.lookup "webhook_subscription" = some t →
    t.columns = subscriptionColumns) : reconcileOps c = [] := by
  unfold reconcileOps
  cases htable : c.tables.lookup "webhook_subscription" with
  | none => rfl
  | some t =>
      have hnames : "managed" ∈ t.names := by
        rw [Table.names, h t htable]
        decide
      exact if_pos hnames

theorem migrate_eq_nil (hindexes : c.indexesOn "webhook_subscription" = [] ∨
      c.indexesOn "webhook_subscription" = [tokenIndex])
    (h : ∀ t, c.tables.lookup "webhook_subscription" = some t → t.columns = subscriptionColumns) :
    migrate c = [] := by
  unfold migrate
  cases htable : c.tables.lookup "webhook_subscription" with
  | none => rfl
  | some t =>
      dsimp only
      rw [tokenUnique_eq_false hindexes (h t htable)]
      rfl

/-- Where the table is a fresh one, a start does no more than the schema's script. -/
theorem initStatements_eq {P P' Q : Catalog → Prop} (h : Creates now P P' Q) (hc : P c)
    (e : Elsewhere) (hQ : ∀ c, Q c → (c.indexesOn "webhook_subscription" = [] ∨
      c.indexesOn "webhook_subscription" = [tokenIndex]) ∧
      ∀ t, c.tables.lookup "webhook_subscription" = some t → t.columns = subscriptionColumns) :
    initStatements e now c = schemaSql e ++ List.replicate (e.reconciled + e.seeded) .other := by
  obtain ⟨c', hc', hexec⟩ := h.append hc e
  have hcreated : execAll now c (schemaSql e) = c' := by
    rw [← List.append_nil (schemaSql e), hexec]
    rfl
  have hmigrate := migrate_eq_nil (hQ c' hc').1 (hQ c' hc').2
  have hops := reconcileOps_eq_nil (hQ c' hc').2
  simp only [initStatements, hcreated, hmigrate, execAll, hops, List.append_nil, List.append_assoc,
    List.replicate_append_replicate]

theorem Stranded.stopped (h : Stranded c) (e : Elsewhere) (start : String × ℕ) :
    Stranded (stopped e c start) := by
  have hstatements := initStatements_eq (Stranded.creates start.1) h e fun c hc =>
    ⟨.inl hc.bare, hc.columns⟩
  rw [Schema.stopped, hstatements]
  refine (Stranded.creates _).take h e (fun _ hc => hc) (fun _ hc => hc.1) (fun c' hc' m => ?_) _
  exact execAll_take_keeps (keeps_others _ Stranded _) hc' m

/-! ## A rebuild that was finished -/

/-- A row of the old table, and the row that was copied from it. -/
def Copies (t : Table) (old new : Row) : Prop :=
  ∀ name ∈ carried t, new name = old name

/-- The rows of a table, in a table like a fresh one. -/
structure Rebuilt (t : Table) (c : Catalog) : Prop where
  table : ∃ rows, c.tables.lookup "webhook_subscription" = some ⟨subscriptionColumns, rows⟩ ∧
    List.Forall₂ (Copies t) t.rows rows
  indexed : TokenIndexed c

theorem Rebuilt.columns (h : Rebuilt t c) :
    ∀ t, c.tables.lookup "webhook_subscription" = some t → t.columns = subscriptionColumns := by
  obtain ⟨rows, hrows, -⟩ := h.table
  intro t ht
  cases hrows.symm.trans ht
  rfl

theorem Rebuilt.creates (now : String) (t : Table) : Creates now (Rebuilt t) (Rebuilt t)
    (fun c => Rebuilt t c ∧ tokenIndex ∈ c.indexes) where
  table c hc := by
    obtain ⟨rows, hrows, -⟩ := hc.table
    refine ⟨c, ?_, hc⟩
    simp [exec, hrows]
  index c hc := by
    obtain ⟨rows, hrows, hcopies⟩ := hc.table
    have hnames : tokenIndex.columns.all (· ∈ subscriptionColumns.map (·.name)) = true := by decide
    obtain ⟨c', hexec, htables, hindexed, hmem, -⟩ :=
      Schema.exec_tokenIndex now hc.indexed hrows hnames
    exact ⟨c', hexec, ⟨⟨rows, htables ▸ hrows, hcopies⟩, hindexed⟩, hmem⟩

theorem Rebuilt.statements_of_creates
    (h : Creates now P P' fun c => Rebuilt t c ∧ tokenIndex ∈ c.indexes) (hc : P c)
    (e : Elsewhere) :
    initStatements e now c = schemaSql e ++ List.replicate (e.reconciled + e.seeded) .other :=
  initStatements_eq h hc e fun _ hc => ⟨hc.1.indexed.indexes, hc.1.columns⟩

theorem Rebuilt.stopped (h : Rebuilt t c) (e : Elsewhere) (start : String × ℕ) :
    Rebuilt t (stopped e c start) := by
  rw [Schema.stopped, Rebuilt.statements_of_creates (Rebuilt.creates _ t) h]
  refine (Rebuilt.creates _ t).take h e (fun _ hc => hc) (fun _ hc => hc) (fun c' hc' m => ?_) _
  exact execAll_take_keeps (keeps_others _ (Rebuilt t) _) hc'.1 m

/-- A whole start that creates the table, or finds it, leaves it with its index. -/
theorem Rebuilt.initSchema_of_creates
    (h : Creates now P P' fun c => Rebuilt t c ∧ tokenIndex ∈ c.indexes) (hc : P c)
    (e : Elsewhere) : Rebuilt t (initSchema e now c) ∧
      (initSchema e now c).indexesOn "webhook_subscription" = [tokenIndex] := by
  obtain ⟨c', hc', hexec⟩ := h.append hc e
  rw [initSchema, Rebuilt.statements_of_creates h hc, hexec]
  have hkept := execAll_keeps (keeps_others now
    (fun c => Rebuilt t c ∧ tokenIndex ∈ c.indexes) (e.reconciled + e.seeded)) hc'
  exact ⟨hkept.1, hkept.1.indexed.mem_iff.mp hkept.2⟩

/-! ## The rebuild -/

theorem Legacy.creates (now : String) (t : Table) : Creates now (Legacy t) (Legacy t)
    (fun c => Legacy t c ∧ tokenIndex ∈ c.indexes) where
  table c hc := ⟨c, by simp [exec, hc.table], hc⟩
  index _ hc := hc.exec_tokenIndex

/-- The copied rows are held to no more than the old table held them to. -/
theorem Legacy.valid_inserted (h : Legacy t c) (now : String) :
    Table.Valid ⟨subscriptionColumns,
      t.rows.map (inserted now subscriptionColumns (carried t))⟩ := by
  intro col hcol
  by_cases hname : col.name = "managed"
  · have hmanaged : col = ⟨"managed", "TEXT", true, false, false, .value (.text "env")⟩ := by
      have hall : ∀ col ∈ subscriptionColumns, col.name = "managed" →
          col = ⟨"managed", "TEXT", true, false, false, .value (.text "env")⟩ := by decide
      exact hall col hcol hname
    subst hmanaged
    refine ⟨fun _ row hrow => ?_, fun h => by simp at h⟩
    obtain ⟨old, hold, rfl⟩ := List.mem_map.mp hrow
    unfold inserted
    split_ifs with hgiven
    · have hlegacy : ∃ col' ∈ t.columns, col'.name = "managed" := by
        have hnames := of_decide_eq_true (List.mem_filter.mp hgiven).2
        obtain ⟨col', hcol', hname'⟩ := List.mem_map.mp hnames
        exact ⟨col', hcol', hname'⟩
      obtain ⟨col', hcol', hname'⟩ := hlegacy
      have hnotNull : col'.notNull = true := by
        have hall : ∀ col ∈ legacyColumns, col.name = "managed" → col.notNull = true := by decide
        rcases h.columns with hperm | hperm
        · exact hall col' (hperm.mem_iff.mp hcol') hname'
        · exact hall col' (List.mem_of_mem_filter (hperm.mem_iff.mp hcol')) hname'
      exact hname' ▸ (h.valid col' hcol').1 hnotNull old hold
    · simp [subscriptionColumns, Default.read]
  · obtain ⟨col', hcol', hsame, hnotNull, hkey⟩ := h.column hcol hname
    have hgiven : col.name ∈ carried t := by
      refine List.mem_filter.mpr ⟨?_, decide_eq_true (hsame ▸ List.mem_map_of_mem hcol')⟩
      have hall : ∀ col ∈ subscriptionColumns, col.name ∈ ["subscription_pco_id", "event_name",
        "resource", "action", "url_token", "authenticity_secret", "active", "last_event_at",
        "managed", "created_at"] := by decide
      exact hall col hcol
    have hcopied : ∀ row, inserted now subscriptionColumns (carried t) row col.name =
        row col'.name := by
      intro row
      rw [inserted, if_pos hgiven, hsame]
    have hvalid := h.valid col' hcol'
    refine ⟨fun hset row hrow => ?_, fun hset => ?_⟩
    · obtain ⟨old, hold, rfl⟩ := List.mem_map.mp hrow
      rw [hcopied]
      exact hvalid.1 (hnotNull.trans hset) old hold
    · have hplain : ∀ col ∈ subscriptionColumns, col.unique = false := by decide
      rw [hplain col hcol, Bool.false_or, ← hkey] at hset
      have hnodup := hvalid.2 (by rw [hset, Bool.or_true])
      rw [List.map_map]
      simpa only [Function.comp_def, hcopied] using hnodup

theorem insertable (t : Table) :
    (carried t).all (fun name =>
      name ∈ subscriptionColumns.map (·.name) && name ∈ t.names) = true := by
  refine List.all_eq_true.mpr fun name hname => ?_
  obtain ⟨hlisted, hheld⟩ := List.mem_filter.mp hname
  have hall : ∀ name ∈ ["subscription_pco_id", "event_name", "resource", "action", "url_token",
      "authenticity_secret", "active", "last_event_at", "managed", "created_at"],
      name ∈ subscriptionColumns.map (·.name) := by decide
  rw [Bool.and_eq_true]
  exact ⟨decide_eq_true (hall name hlisted), hheld⟩

/-- An index of the table goes with it when it is renamed. -/
def Index.moved (index : Index) : Index :=
  if index.table = "webhook_subscription" then { index with table := "webhook_subscription_old" }
  else index

theorem Index.moved_table (index : Index) : index.moved.table ≠ "webhook_subscription" := by
  unfold Index.moved
  split_ifs with htable
  · simp
  · exact htable

theorem indexesOn_moved {indexes : List Index}
    (h : ∀ index ∈ indexes, ∃ old : Index, index = old.moved) (tables : Sql.Table Table) :
    Catalog.indexesOn ⟨tables, indexes⟩ "webhook_subscription" = [] := by
  rw [Catalog.indexesOn, List.filter_eq_nil_iff]
  intro index hmem
  obtain ⟨old, rfl⟩ := h index hmem
  simpa using old.moved_table

/-- Once the old table is dropped, no index has the name of the new one's. -/
theorem TokenIndexed.name_free (h : TokenIndexed c) {index : Index}
    (hmem : index ∈ (c.indexes.map Index.moved).filter (·.table ≠ "webhook_subscription_old")) :
    index.name ≠ tokenIndex.name := by
  obtain ⟨hmoved, htable⟩ := List.mem_filter.mp hmem
  obtain ⟨old, hold, rfl⟩ := List.mem_map.mp hmoved
  intro hname
  have hsame : old.name = tokenIndex.name := by
    rw [← hname, Index.moved]
    split_ifs <;> rfl
  rw [h.only old hold hsame] at htable
  exact absurd htable (by decide)

/-- Between the rename and the drop the table is stranded; with the drop the rows have been copied,
and the index is gone. -/
theorem Legacy.rebuild (h : Legacy t c) (hindex : tokenIndex ∈ c.indexes) (now : String) :
    ∃ c₁ c₂ c₃ c₄,
      exec now c (.renameTable "webhook_subscription" "webhook_subscription_old") = some c₁ ∧
      exec now c₁ (.createTable "webhook_subscription" subscriptionColumns) = some c₂ ∧
      exec now c₂ (.createIndex tokenIndex) = some c₂ ∧
      exec now c₂ (.insertSelect "webhook_subscription" (carried t) "webhook_subscription_old") =
        some c₃ ∧
      exec now c₃ (.dropTable "webhook_subscription_old") = some c₄ ∧
      Stranded c₁ ∧ Stranded c₂ ∧ Stranded c₃ ∧ Rebuilt t c₄ ∧
      c₄.indexesOn "webhook_subscription" = [] := by
  let rows := t.rows.map (inserted now subscriptionColumns (carried t))
  let c₁ : Catalog := {
    tables := (c.tables.erase "webhook_subscription").insert "webhook_subscription_old" t
    indexes := c.indexes.map Index.moved }
  let c₂ : Catalog :=
    { c₁ with tables := c₁.tables.insert "webhook_subscription" ⟨subscriptionColumns, []⟩ }
  let c₃ : Catalog :=
    { c₂ with tables := c₂.tables.insert "webhook_subscription" ⟨subscriptionColumns, rows⟩ }
  let c₄ : Catalog := {
    tables := c₃.tables.erase "webhook_subscription_old"
    indexes := c₃.indexes.filter (·.table ≠ "webhook_subscription_old") }
  have hfree : c₁.tables.lookup "webhook_subscription" = none := by simp [c₁]
  have hold : c₂.tables.lookup "webhook_subscription_old" = some t := by simp [c₂, c₁]
  have hcreated : c₂.tables.lookup "webhook_subscription" = some ⟨subscriptionColumns, []⟩ := by
    simp [c₂]
  have hfilled : c₃.tables.lookup "webhook_subscription" = some ⟨subscriptionColumns, rows⟩ := by
    simp [c₃]
  have htaken : ∃ index ∈ c₁.indexes, index.name = tokenIndex.name :=
    ⟨tokenIndex.moved, List.mem_map_of_mem hindex, rfl⟩
  have hbare : ∀ tables, Catalog.indexesOn ⟨tables, c₁.indexes⟩ "webhook_subscription" = [] := by
    refine indexesOn_moved fun index hmem => ?_
    obtain ⟨old, -, rfl⟩ := List.mem_map.mp hmem
    exact ⟨old, rfl⟩
  have hdropped : c₄.indexesOn "webhook_subscription" = [] := by
    refine indexesOn_moved (fun index hmem => ?_) _
    obtain ⟨old, -, rfl⟩ := List.mem_map.mp (List.mem_of_mem_filter hmem)
    exact ⟨old, rfl⟩
  refine ⟨c₁, c₂, c₃, c₄, ?_, ?_, ?_, ?_, ?_, ⟨htaken, hbare _, ?_⟩, ⟨htaken, hbare _, ?_⟩,
    ⟨htaken, hbare _, ?_⟩, ⟨⟨rows, ?_, ?_⟩, ?_, .inl hdropped⟩, hdropped⟩
  · simp [exec, h.table, h.spare, c₁, Index.moved]
  · simp [exec, hfree, c₂]
  · obtain ⟨index, hmem, hname⟩ := htaken
    have hany : c₂.indexes.any (·.name = tokenIndex.name) = true :=
      List.any_eq_true.mpr ⟨index, hmem, decide_eq_true hname⟩
    have hlookup : c₂.tables.lookup tokenIndex.table = some ⟨subscriptionColumns, []⟩ := hcreated
    simp [exec, hlookup, hany]
  · simp only [exec, hcreated, hold, Option.bind_eq_bind, Option.bind_some, List.nil_append]
    exact if_pos ⟨insertable t, h.valid_inserted now⟩
  · have hlookup : c₃.tables.lookup "webhook_subscription_old" = some t := by simp [c₃, hold]
    simp [exec, hlookup, c₄]
  · intro t' ht'
    cases hfree.symm.trans ht'
  · intro t' ht'
    cases hcreated.symm.trans ht'
    rfl
  · intro t' ht'
    cases hfilled.symm.trans ht'
    rfl
  · simp [c₄, hfilled]
  · rw [List.forall₂_map_right_iff, List.forall₂_same]
    exact fun row _ name hname => if_pos hname
  · exact fun index hmem hname => absurd hname (h.indexed.name_free hmem)

/-- The statements of a start that finds the old table. -/
theorem Legacy.statements (h : Legacy t c) (e : Elsewhere) (now : String) :
    initStatements e now c =
      schemaSql e ++ Schema.rebuild t ++ List.replicate (e.reconciled + e.seeded) .other := by
  obtain ⟨c', ⟨hc', hindex⟩, hexec⟩ := (Legacy.creates now t).append h e
  have hcreated : execAll now c (schemaSql e) = c' := by
    rw [← List.append_nil (schemaSql e), hexec]
    rfl
  have hmigrate : migrate c' = Schema.rebuild t := by
    simp [migrate, hc'.table, hc'.tokenUnique]
  obtain ⟨c₁, c₂, c₃, c₄, hrename, hcreate, hci, hinsert, hdrop, -, -, -, hrebuilt, -⟩ :=
    hc'.rebuild hindex now
  have hrun : execAll now c' (Schema.rebuild t) = c₄ := by
    simp only [Schema.rebuild, subscriptionDdl, List.cons_append, List.nil_append]
    rw [execAll_cons rfl, execAll_cons hrename, execAll_cons hcreate, execAll_cons hci,
      execAll_cons hinsert, execAll_cons hdrop, execAll_cons rfl]
    rfl
  have hops := reconcileOps_eq_nil hrebuilt.columns
  simp only [initStatements, hcreated, hmigrate, hrun, hops, List.append_nil, List.append_assoc,
    List.replicate_append_replicate]

/-! ## Starts that are stopped -/

def renames : Statement :=
  .renameTable "webhook_subscription" "webhook_subscription_old"

def drops : Statement :=
  .dropTable "webhook_subscription_old"

/-- What a start on the old table does before it is renamed, and from there on. -/
def beforeRename (e : Elsewhere) : List Statement :=
  schemaSql e ++ [.other]

def fromRename (e : Elsewhere) (t : Table) : List Statement :=
  renames :: .createTable "webhook_subscription" subscriptionColumns :: .createIndex tokenIndex ::
    .insertSelect "webhook_subscription" (carried t) "webhook_subscription_old" :: drops ::
    List.replicate (e.reconciled + e.seeded + 1) .other

theorem Legacy.statements_split (h : Legacy t c) (e : Elsewhere) (now : String) :
    initStatements e now c = beforeRename e ++ fromRename e t := by
  rw [h.statements, Schema.rebuild, subscriptionDdl, beforeRename, fromRename, renames, drops]
  simp [List.replicate_succ]

theorem notMem_beforeRename (e : Elsewhere) :
    renames ∉ beforeRename e ∧ drops ∉ beforeRename e := by
  simp [beforeRename, schemaSql, subscriptionDdl, renames, drops, List.mem_replicate]

theorem Legacy.take_beforeRename (h : Legacy t c) (e : Elsewhere) (n : ℕ) :
    Legacy t (execAll now c ((beforeRename e).take n)) := by
  refine (Legacy.creates _ t).take h e (fun _ hc => hc) (fun _ hc => hc) (fun c' hc' m => ?_) n
  exact execAll_take_keeps (keeps_others _ (Legacy t) 1) hc'.1 m

/-- From the rename on, the table is stranded until the drop. -/
theorem Legacy.take_fromRename (h : Legacy t c) (hindex : tokenIndex ∈ c.indexes) (e : Elsewhere)
    (now : String) (n : ℕ) :
    (drops ∈ (fromRename e t).take (n + 1) →
      Rebuilt t (execAll now c ((fromRename e t).take (n + 1)))) ∧
    (drops ∉ (fromRename e t).take (n + 1) →
      Stranded (execAll now c ((fromRename e t).take (n + 1)))) := by
  obtain ⟨c₁, c₂, c₃, c₄, hrename, hcreate, hci, hinsert, hdrop, h₁, h₂, h₃, h₄, -⟩ :=
    h.rebuild hindex now
  rw [← renames] at hrename
  rw [← drops] at hdrop
  match n with
  | 0 =>
      refine ⟨fun hmem => absurd hmem (by simp [fromRename, renames, drops]), fun _ => ?_⟩
      rwa [fromRename, execAll_take_succ hrename]
  | 1 =>
      refine ⟨fun hmem => absurd hmem (by simp [fromRename, renames, drops]), fun _ => ?_⟩
      rwa [fromRename, execAll_take_succ hrename, execAll_take_succ hcreate]
  | 2 =>
      refine ⟨fun hmem => absurd hmem (by simp [fromRename, renames, drops]), fun _ => ?_⟩
      rwa [fromRename, execAll_take_succ hrename, execAll_take_succ hcreate, execAll_take_succ hci]
  | 3 =>
      refine ⟨fun hmem => absurd hmem (by simp [fromRename, renames, drops]), fun _ => ?_⟩
      rwa [fromRename, execAll_take_succ hrename, execAll_take_succ hcreate, execAll_take_succ hci,
        execAll_take_succ hinsert]
  | n + 4 =>
      refine ⟨fun _ => ?_, fun hmem => absurd (by simp [fromRename]) hmem⟩
      rw [fromRename, execAll_take_succ hrename, execAll_take_succ hcreate, execAll_take_succ hci,
        execAll_take_succ hinsert, execAll_take_succ hdrop]
      exact execAll_take_keeps (keeps_others _ (Rebuilt t) _) h₄ n

/-- What comes of a start on the old table, by how far it gets. -/
structure Legacy.Stopped (e : Elsewhere) (t : Table) (c : Catalog) (start : String × ℕ) : Prop where
  before : renames ∉ (initStatements e start.1 c).take start.2 → Legacy t (stopped e c start)
  between : renames ∈ (initStatements e start.1 c).take start.2 →
    drops ∉ (initStatements e start.1 c).take start.2 → Stranded (stopped e c start)
  after : drops ∈ (initStatements e start.1 c).take start.2 → Rebuilt t (stopped e c start)

theorem Legacy.stopped (h : Legacy t c) (e : Elsewhere) (start : String × ℕ) :
    Legacy.Stopped e t c start := by
  obtain ⟨now, n⟩ := start
  have hsplit := h.statements_split e now
  obtain ⟨hrenames, hdrops⟩ := notMem_beforeRename e
  rcases Nat.lt_or_ge (beforeRename e).length n with hlong | hshort
  · obtain ⟨m, rfl⟩ : ∃ m, n = (beforeRename e).length + (m + 1) :=
      ⟨n - (beforeRename e).length - 1, by omega⟩
    obtain ⟨c', ⟨hc', hindex⟩, hexec⟩ := (Legacy.creates now t).append h e
    have htake : (initStatements e now c).take ((beforeRename e).length + (m + 1)) =
        beforeRename e ++ (fromRename e t).take (m + 1) := by
      rw [hsplit, List.take_length_add_append]
    have hrun : Schema.stopped e c (now, (beforeRename e).length + (m + 1)) =
        execAll now c' ((fromRename e t).take (m + 1)) := by
      rw [Schema.stopped, htake, beforeRename, List.append_assoc, hexec, List.singleton_append,
        execAll_cons rfl]
    have hmem : drops ∈ beforeRename e ++ (fromRename e t).take (m + 1) ↔
        drops ∈ (fromRename e t).take (m + 1) := by
      rw [List.mem_append, or_iff_right hdrops]
    obtain ⟨hafter, hbetween⟩ := hc'.take_fromRename hindex e now m
    constructor
    · rw [htake]
      exact fun hmem => absurd (List.mem_append_right _ (by simp [fromRename])) hmem
    · rw [htake, hrun, hmem]
      exact fun _ => hbetween
    · rw [htake, hrun, hmem]
      exact hafter
  · have htake : (initStatements e now c).take n = (beforeRename e).take n := by
      rw [hsplit, List.take_append_of_le_length hshort]
    constructor
    · rw [Schema.stopped, htake]
      exact fun _ => h.take_beforeRename e n
    · rw [htake]
      exact fun hmem => absurd (List.mem_of_mem_take hmem) hrenames
    · rw [htake]
      exact fun hmem => absurd (List.mem_of_mem_take hmem) hdrops

/-! ## What the starts leave -/

/-- A database without the table becomes one with the table, empty, and its index. -/
theorem fresh_subscriptions (e : Elsewhere) (now : String) :
    (initSchema e now {}).tables.lookup "webhook_subscription" = some ⟨subscriptionColumns, []⟩ ∧
      (initSchema e now {}).indexesOn "webhook_subscription" = [tokenIndex] := by
  have hcreates : Creates now
      (fun c => c.tables.lookup "webhook_subscription" = none ∧ TokenIndexed c) (Rebuilt ⟨[], []⟩)
      (fun c => Rebuilt ⟨[], []⟩ c ∧ tokenIndex ∈ c.indexes) := by
    refine ⟨fun c hc => ?_, (Rebuilt.creates _ ⟨[], []⟩).index⟩
    refine ⟨_, if_neg (by rw [hc.1]; exact Bool.false_ne_true), ⟨[], ?_, .nil⟩, hc.2.only,
      hc.2.indexes⟩
    exact AList.lookup_insert _
  obtain ⟨hrebuilt, hindexes⟩ :=
    Rebuilt.initSchema_of_creates hcreates (c := {}) ⟨rfl, nofun, .inl rfl⟩ e
  obtain ⟨rows, hrows, hcopies⟩ := hrebuilt.table
  cases hcopies
  exact ⟨hrows, hindexes⟩

/-- These rows are kept, and the table and its indexes are as in a database that is created now. -/
structure Lossless (e : Elsewhere) (now : String) (t : Table) (c' : Catalog) : Prop where
  table : ∃ t' fresh, c'.tables.lookup "webhook_subscription" = some t' ∧
    (initSchema e now {}).tables.lookup "webhook_subscription" = some fresh ∧
    t'.columns = fresh.columns ∧ List.Forall₂ (Copies t) t.rows t'.rows
  indexes : c'.indexesOn "webhook_subscription" =
    (initSchema e now {}).indexesOn "webhook_subscription"

theorem Rebuilt.lossless (h : Rebuilt t c) (e : Elsewhere) (now : String) :
    Lossless e now t (initSchema e now c) := by
  obtain ⟨hrebuilt, hindexes⟩ := Rebuilt.initSchema_of_creates (Rebuilt.creates now t) h e
  obtain ⟨rows, hrows, hcopies⟩ := hrebuilt.table
  obtain ⟨hfresh, hfreshIndexes⟩ := fresh_subscriptions e now
  exact ⟨⟨_, _, hrows, hfresh, rfl, hcopies⟩, hindexes.trans hfreshIndexes.symm⟩

theorem not_lossless_of_bare (h : c.indexesOn "webhook_subscription" = []) :
    ¬ Lossless e now t c := by
  intro hlossless
  have hindexes := hlossless.indexes
  rw [h, (fresh_subscriptions e now).2] at hindexes
  cases hindexes

/-- The start that rebuilds the table leaves it without its index. -/
theorem Legacy.initSchema_bare (h : Legacy t c) (e : Elsewhere) (now : String) :
    (initSchema e now c).indexesOn "webhook_subscription" = [] := by
  obtain ⟨c', ⟨hc', hindex⟩, hexec⟩ := (Legacy.creates now t).append h e
  obtain ⟨c₁, c₂, c₃, c₄, hrename, hcreate, hci, hinsert, hdrop, -, -, -, -, hbare⟩ :=
    hc'.rebuild hindex now
  rw [← renames] at hrename
  rw [← drops] at hdrop
  rw [initSchema, h.statements_split, beforeRename, List.append_assoc, hexec, List.singleton_append,
    execAll_cons rfl, fromRename, execAll_cons hrename, execAll_cons hcreate, execAll_cons hci,
    execAll_cons hinsert, execAll_cons hdrop]
  exact execAll_keeps (keeps_others _ (fun c => c.indexesOn "webhook_subscription" = []) _) hbare

theorem initSchema_eq_stopped (e : Elsewhere) (now : String) (c : Catalog) :
    initSchema e now c = stopped e c (now, (initStatements e now c).length) := by
  rw [stopped, List.take_length, initSchema]

/-- The rows and the index survive exactly where a start before the last gets past the drop, and
none before that one is stopped between the rename and the drop. -/
theorem migration_lossless_iff (e : Elsewhere) (t : Table) (c : Catalog) (h : Legacy t c)
    (starts : List (String × ℕ)) (now : String) :
    Lossless e now t (initSchema e now (starts.foldl (stopped e) c)) ↔
      ∃ start, starts.find? (fun start => renames ∈ (initStatements e now c).take start.2) =
        some start ∧ drops ∈ (initStatements e now c).take start.2 := by
  rw [h.statements_split]
  induction starts generalizing c with
  | nil => simpa using not_lossless_of_bare (h.initSchema_bare e now)
  | cons start starts ih =>
      have hstopped := h.stopped e start
      have hkept : ∀ P : Catalog → Prop, (∀ c start, P c → P (stopped e c start)) →
          P (stopped e c start) → P (starts.foldl (stopped e) (stopped e c start)) := by
        intro P hP hc
        exact List.foldlRecOn starts (stopped e) hc fun c hc start _ => hP c start hc
      rw [List.foldl_cons]
      obtain ⟨hbefore, hbetween, hafter⟩ := hstopped
      rw [h.statements_split] at hbefore hbetween hafter
      by_cases hrenames : renames ∈ (beforeRename e ++ fromRename e t).take start.2
      · simp only [List.find?_cons, hrenames, decide_true]
        by_cases hdrops : drops ∈ (beforeRename e ++ fromRename e t).take start.2
        · have hrebuilt := hkept (Rebuilt t) (fun c start hc => hc.stopped e start) (hafter hdrops)
          exact iff_of_true (hrebuilt.lossless e now) ⟨start, rfl, hdrops⟩
        · have hstranded := hkept Stranded (fun c start hc => hc.stopped e start)
            (hbetween hrenames hdrops)
          have hbare : (initSchema e now (starts.foldl (stopped e) (stopped e c start))).indexesOn
              "webhook_subscription" = [] := by
            rw [initSchema_eq_stopped]
            exact (hstranded.stopped e _).bare
          refine iff_of_false (not_lossless_of_bare hbare) ?_
          rintro ⟨start', hstart, hdrops'⟩
          cases hstart
          exact hdrops hdrops'
      · simp only [List.find?_cons, hrenames, decide_false]
        exact ih _ (hbefore hrenames)

/-! ## A subscription that is lost -/

/-- One subscription, in a table from before `managed`. -/
def oneSubscription : Table where
  columns := legacyColumns.filter (·.name ≠ "managed")
  rows := [fun name =>
    if name = "subscription_pco_id" then .text "sub1"
    else if name = "event_name" then .text "people.v2.events.person.updated"
    else if name = "url_token" then .text "tok-aaaa-01"
    else if name = "authenticity_secret" then .text "whsec_a"
    else if name = "active" then .integer 1
    else if name = "created_at" then .text "2026-07-01T00:00:00Z"
    else .null]

def oldDatabase : Catalog where
  tables := AList.singleton "webhook_subscription" oneSubscription

theorem legacy_oldDatabase : Legacy oneSubscription oldDatabase where
  table := rfl
  columns := .inr (.refl _)
  valid := by decide
  spare := rfl
  indexed := ⟨nofun, .inl rfl⟩
  placed := nofun

theorem migration_lossless_iff_oldDatabase :
    Lossless ⟨1, 1, 1, 1⟩ "2026-07-02T00:00:00Z" oneSubscription
        (initSchema ⟨1, 1, 1, 1⟩ "2026-07-02T00:00:00Z"
          ([("2026-07-01T00:00:00Z", 10)].foldl (stopped ⟨1, 1, 1, 1⟩) oldDatabase)) ↔
      ∃ start, [("2026-07-01T00:00:00Z", 10)].find? (fun start => renames ∈
          (initStatements ⟨1, 1, 1, 1⟩ "2026-07-02T00:00:00Z" oldDatabase).take start.2) =
          some start ∧
        drops ∈ (initStatements ⟨1, 1, 1, 1⟩ "2026-07-02T00:00:00Z" oldDatabase).take start.2 :=
  migration_lossless_iff ⟨1, 1, 1, 1⟩ oneSubscription oldDatabase legacy_oldDatabase _ _

/-- One start leaves the table without its index; a start that is stopped after the rename, and
then another, leave it without its rows. -/
theorem migration_not_lossless :
    ¬ Lossless ⟨1, 1, 1, 1⟩ "2026-07-02T00:00:00Z" oneSubscription
        (initSchema ⟨1, 1, 1, 1⟩ "2026-07-02T00:00:00Z" oldDatabase) ∧
      ((initSchema ⟨1, 1, 1, 1⟩ "2026-07-02T00:00:00Z" (stopped ⟨1, 1, 1, 1⟩ oldDatabase
        ("2026-07-01T00:00:00Z", 6))).tables.lookup "webhook_subscription").map (·.rows.length) =
        some 0 :=
  ⟨not_lossless_of_bare (legacy_oldDatabase.initSchema_bare _ _), by decide +kernel⟩

end PcoMirror.Schema
