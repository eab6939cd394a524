import PcoMirror.Verification.Schema.Definitions

/-! When one start-up brings the mirrored tables to the registry, and the next one has nothing
left to do. -/

namespace PcoMirror.Schema

/-! ## One table -/

/-- The column is there, and generated by what the projection says. -/
def Projection.Stands (p : Projection) (t : StoredTable) : Prop :=
  ∃ col ∈ t.created ++ t.added, col.name = p.name ∧ col.body = p.kind.body

/-- The reconcile finds nothing to do for a projection. -/
def Settled (names : List String) (stored : List (List Char × List Char)) (p : Projection) : Prop :=
  p.name ∈ names ∧ ∀ body, p.kind.body = some body →
    sameExpression (definitionOf stored p.name) body.toList = true

/-- What a row holds beside its projections. -/
def StoredTable.kept (t : StoredTable) : List (List (Option String)) :=
  t.rows.map sharedColumns.map

theorem StoredTable.addColumn_eq_some {t t' : StoredTable} {p : Projection}
    (h : t.addColumn p = some t') :
    t'.created = t.created ∧ t'.added = t.added ++ [p.column true] ∧ t'.rows = t.rows := by
  rw [addColumn] at h
  split at h
  · cases h
  · cases h
    exact ⟨rfl, rfl, rfl⟩

theorem StoredTable.addColumn_of_notMem {t : StoredTable} {p : Projection} (h : p.name ∉ t.names) :
    ∃ t', t.addColumn p = some t' := by
  rw [addColumn, dif_neg h]
  exact ⟨_, rfl⟩

theorem StoredTable.kept_dropColumn {t : StoredTable} {name : String} (h : name ∉ sharedColumns) :
    (t.dropColumn name).kept = t.kept := by
  rw [kept, kept, dropColumn, List.map_map]
  refine List.map_congr_left fun row _ => List.map_congr_left fun column hcolumn => ?_
  have hne : column ≠ name := by
    rintro rfl
    exact h hcolumn
  exact if_neg hne

theorem replaceGeneratedColumn_eq_some {table : String} {t t' : StoredTable}
    {indexes indexes' : List MirrorIndex} {p : Projection} (hshared : p.name ∉ sharedColumns)
    (h : replaceGeneratedColumn table t indexes p = some (t', indexes')) :
    (∀ col ∈ t'.created, col ∈ t.created) ∧
      (∀ col ∈ t'.created ++ t'.added, col ∈ t.created ++ t.added ∨ col = p.column true) ∧
      t'.kept = t.kept ∧ ∀ index ∈ indexes, index ∈ indexes' := by
  simp only [replaceGeneratedColumn, Option.bind_eq_bind, Option.bind_eq_some_iff, Option.some_inj,
    Prod.mk.injEq] at h
  obtain ⟨after, hadd, rfl, rfl⟩ := h
  obtain ⟨hcreated, hadded, hrows⟩ := StoredTable.addColumn_eq_some hadd
  have hsub : ∀ col ∈ after.created, col ∈ t.created := by
    intro col hcol
    rw [hcreated] at hcol
    exact List.mem_of_mem_filter hcol
  refine ⟨hsub, fun col hcol => ?_, ?_, fun index hindex => ?_⟩
  · rw [List.mem_append, hadded, List.mem_append, List.mem_singleton] at hcol
    rcases hcol with hcol | hcol | hcol
    · exact .inl (List.mem_append_left _ (hsub col hcol))
    · exact .inl (List.mem_append_right _ (List.mem_of_mem_filter hcol))
    · exact .inr hcol
  · rw [← StoredTable.kept_dropColumn (t := t) hshared, StoredTable.kept, hrows, StoredTable.kept]
  · simp only [List.mem_append, List.mem_filter, hindex, true_and, decide_not, Bool.not_eq_true',
      decide_eq_false_iff_not]
    exact (Classical.em _).symm

/-- What the reconcile of some projections does to a table: columns of theirs come to its end, and
a list of changes that does not grow means there was nothing to do. -/
structure Worked (names : List String) (stored : List (List Char × List Char))
    (ps : List Projection) (s s' : StoredTable × List MirrorIndex × List String) : Prop where
  created : ∀ col ∈ s'.1.created, col ∈ s.1.created
  columns : ∀ col ∈ s'.1.created ++ s'.1.added, col ∈ s.1.created ++ s.1.added ∨
    ∃ p ∈ ps, col = p.column true ∧ (p.name ∈ names → p.kind.body ≠ none)
  kept : s'.1.kept = s.1.kept
  indexes : ∀ index ∈ s.2.1, index ∈ s'.2.1
  grows : s.2.2.length ≤ s'.2.2.length
  settled : s'.2.2.length = s.2.2.length → ∀ p ∈ ps, Settled names stored p

section

variable {table : String} {names : List String} {stored : List (List Char × List Char)}
  {s s' : StoredTable × List MirrorIndex × List String}

theorem worked_reconcileColumn {p : Projection} (hshared : p.name ∉ sharedColumns)
    (h : reconcileColumn table names stored s p = some s') : Worked names stored [p] s s' := by
  obtain ⟨t, indexes, changes⟩ := s
  rw [reconcileColumn] at h
  by_cases hname : p.name ∈ names
  · rw [if_neg (not_not.mpr hname)] at h
    cases hbody : p.kind.body with
    | none =>
        simp only [hbody, Option.some_inj] at h
        subst h
        exact ⟨fun _ => id, fun _ => .inl, rfl, fun _ => id, le_rfl, fun _ =>
          by simp [Settled, hname, hbody]⟩
    | some body =>
        simp only [hbody] at h
        split at h
        · case isTrue hsame =>
            cases h
            exact ⟨fun _ => id, fun _ => .inl, rfl, fun _ => id, le_rfl, fun _ =>
              by simp [Settled, hname, hbody, hsame]⟩
        · simp only [Option.bind_eq_bind, Option.bind_eq_some_iff] at h
          obtain ⟨⟨t', indexes'⟩, hreplace, h⟩ := h
          cases h
          obtain ⟨hcreated, hcolumns, hkept, hindexes⟩ :=
            replaceGeneratedColumn_eq_some hshared hreplace
          exact ⟨hcreated, fun col hcol => (hcolumns col hcol).imp_right fun heq =>
            ⟨p, by simp, heq, by simp [hbody]⟩, hkept, hindexes, by simp, by simp⟩
  · rw [if_pos hname] at h
    simp only [Option.bind_eq_bind, Option.bind_eq_some_iff] at h
    obtain ⟨t', hadd, h⟩ := h
    cases h
    obtain ⟨hcreated, hadded, hrows⟩ := StoredTable.addColumn_eq_some hadd
    refine ⟨by simp [hcreated], fun col hcol => ?_, ?_, fun _ => id, by simp, by simp⟩
    · simp only [hcreated, hadded, ← List.append_assoc, List.mem_append (t := [_]),
        List.mem_singleton] at hcol
      exact hcol.imp_right fun heq => ⟨p, by simp, heq, fun hmem => absurd hmem hname⟩
    · simp only [StoredTable.kept, hrows]

theorem worked_foldlM {ps : List Projection} (hshared : ∀ p ∈ ps, p.name ∉ sharedColumns)
    (h : ps.foldlM (reconcileColumn table names stored) s = some s') :
    Worked names stored ps s s' := by
  induction ps generalizing s with
  | nil =>
      cases h
      exact ⟨fun _ => id, fun _ => .inl, rfl, fun _ => id, le_rfl, fun _ => by simp⟩
  | cons p ps ih =>
      rw [List.foldlM_cons, Option.bind_eq_bind, Option.bind_eq_some_iff] at h
      obtain ⟨mid, hstep, hrest⟩ := h
      have one := worked_reconcileColumn (hshared p (by simp)) hstep
      have rest := ih (fun q hq => hshared q (by simp [hq])) hrest
      refine ⟨fun col hcol => one.created col (rest.created col hcol), fun col hcol => ?_,
        rest.kept.trans one.kept, fun index hindex => rest.indexes index (one.indexes index hindex),
        one.grows.trans rest.grows, fun hlength => ?_⟩
      · rcases rest.columns col hcol with hmid | ⟨q, hq, hcol⟩
        · exact (one.columns col hmid).imp_right fun ⟨q, hq, hcol⟩ =>
            ⟨q, by simp_all, hcol⟩
        · exact .inr ⟨q, by simp [hq], hcol⟩
      · have hone := one.grows
        have hgrows := rest.grows
        intro q hq
        rcases List.mem_cons.mp hq with rfl | hq
        · exact one.settled (by omega) q (by simp)
        · exact rest.settled (by omega) q hq

theorem reconcileColumn_of_settled {p : Projection} (h : Settled names stored p) :
    reconcileColumn table names stored s p = some s := by
  obtain ⟨t, indexes, changes⟩ := s
  rw [reconcileColumn, if_neg (not_not.mpr h.1)]
  cases hbody : p.kind.body with
  | none => rfl
  | some body => exact if_pos (h.2 body hbody)

theorem foldlM_of_settled {ps : List Projection} (h : ∀ p ∈ ps, Settled names stored p) :
    ps.foldlM (reconcileColumn table names stored) s = some s := by
  induction ps with
  | nil => rfl
  | cons p ps ih =>
      rw [List.foldlM_cons, reconcileColumn_of_settled (h p (by simp)), Option.bind_eq_bind,
        Option.bind_some, ih fun q hq => h q (by simp [hq])]

/-- Where all that is missing are columns the writer fills, they are put at the end. -/
theorem foldlM_of_missing {ps : List Projection}
    (h : ∀ p ∈ ps, Settled names stored p ∨ p.name ∉ names)
    (hnodup : (s.1.names ++ (ps.filter (·.name ∉ names)).map (·.name)).Nodup) :
    ∃ t' changes, ps.foldlM (reconcileColumn table names stored) s = some (t', s.2.1, changes) ∧
      t'.created = s.1.created ∧
      t'.added = s.1.added ++ (ps.filter (·.name ∉ names)).map (·.column true) := by
  induction ps generalizing s with
  | nil => exact ⟨s.1, s.2.2, rfl, rfl, by simp⟩
  | cons p ps ih =>
      have hps : ∀ q ∈ ps, Settled names stored q ∨ q.name ∉ names := fun q hq => h q (by simp [hq])
      rw [List.foldlM_cons]
      rcases h p (by simp) with hsettled | hmissing
      · have hfilter : (p :: ps).filter (·.name ∉ names) = ps.filter (·.name ∉ names) :=
          List.filter_cons_of_neg (by simp [hsettled.1])
        rw [hfilter] at hnodup ⊢
        rw [reconcileColumn_of_settled hsettled]
        exact ih hps hnodup
      · obtain ⟨t, indexes, changes⟩ := s
        have hfilter : (p :: ps).filter (·.name ∉ names) = p :: ps.filter (·.name ∉ names) :=
          List.filter_cons_of_pos (by simp [hmissing])
        rw [hfilter, List.map_cons] at hnodup
        rw [hfilter]
        have hnew : p.name ∉ t.names := fun hmem =>
          (List.nodup_append.mp hnodup).2.2 _ hmem _ List.mem_cons_self rfl
        obtain ⟨t', hadd⟩ := StoredTable.addColumn_of_notMem hnew
        obtain ⟨hcreated, hadded, -⟩ := StoredTable.addColumn_eq_some hadd
        have hnames : t'.names = t.names ++ [p.name] := by
          simp [StoredTable.names, hcreated, hadded, Projection.column]
        have hstep : reconcileColumn table names stored (t, indexes, changes) p =
            some (t', indexes, changes ++ ["+" ++ table ++ "." ++ p.name]) := by
          rw [reconcileColumn, if_pos hmissing, hadd]
          rfl
        obtain ⟨last, changes', hrest, hcreated', hadded'⟩ := ih
          (s := (t', indexes, changes ++ ["+" ++ table ++ "." ++ p.name])) hps
          (by simpa [hnames] using hnodup)
        refine ⟨last, changes', ?_, hcreated'.trans hcreated, ?_⟩
        · rw [hstep]
          exact hrest
        · rw [hadded', hadded, List.append_assoc]
          rfl

end

/-! ## The script -/

/-- What the script leaves of some resources: every table is there, as it was where it was, and
every index by its name. -/
structure Made (rs : List Mirrored) (db db' : Mirror) : Prop where
  old : ∀ table t, db.tables.lookup table = some t → db'.tables.lookup table = some t
  made : ∀ r ∈ rs, ∃ t, db'.tables.lookup r.table = some t
  origin : ∀ table t, db'.tables.lookup table = some t →
    db.tables.lookup table = some t ∨ ∃ r ∈ rs, r.table = table ∧ t = r.fresh
  indexed : ∀ r ∈ rs, ∀ index ∈ r.indexes, ∃ taken ∈ db'.indexes, taken.name = index.name
  indexes : ∀ index ∈ db.indexes, index ∈ db'.indexes
  fresh : ∀ index ∈ db'.indexes, index ∈ db.indexes ∨ (∃ r ∈ rs, index ∈ r.indexes) ∧
    ∃ t, db'.tables.lookup index.table = some t ∧ index.column ∈ t.names

/-- Every index of a resource has its column, or its name is taken. -/
def Indexable (db : Mirror) (r : Mirrored) : Prop :=
  ∀ t, db.tables.lookup r.table = some t → ∀ index ∈ r.indexes,
    index.column ∈ t.names ∨ ∃ taken ∈ db.indexes, taken.name = index.name

theorem Mirrored.table_of_mem_indexes {r : Mirrored} {index : MirrorIndex} (h : index ∈ r.indexes) :
    index.table = r.table := by
  rw [indexes, List.mem_cons, List.mem_map] at h
  rcases h with rfl | ⟨key, -, rfl⟩
  · rfl
  · rfl

section

variable {db db' : Mirror}

/-- One `CREATE INDEX` of a table that is there. -/
theorem createIndex_eq_some {t : StoredTable} {index : MirrorIndex}
    (ht : db.tables.lookup index.table = some t) (h : db.createIndex index = some db') :
    db'.tables = db.tables ∧ (∃ taken ∈ db'.indexes, taken.name = index.name) ∧
      (db'.indexes = db.indexes ∨
        db'.indexes = db.indexes ++ [index] ∧ index.column ∈ t.names) := by
  rw [Mirror.createIndex, ht, Option.bind_eq_bind, Option.bind_some] at h
  split at h
  · case isTrue hany =>
      cases h
      rw [List.any_eq_true] at hany
      obtain ⟨taken, hmem, hname⟩ := hany
      exact ⟨rfl, ⟨taken, hmem, by simpa using hname⟩, .inl rfl⟩
  · split at h
    · case isTrue hcolumn =>
        cases h
        exact ⟨rfl, ⟨index, by simp, rfl⟩, .inr ⟨rfl, hcolumn⟩⟩
    · cases h

theorem createIndex_of_indexable {t : StoredTable} {index : MirrorIndex}
    (ht : db.tables.lookup index.table = some t)
    (h : index.column ∈ t.names ∨ ∃ taken ∈ db.indexes, taken.name = index.name) :
    ∃ db', db.createIndex index = some db' := by
  rw [Mirror.createIndex, ht, Option.bind_eq_bind, Option.bind_some]
  split
  · exact ⟨_, rfl⟩
  · case isFalse hany =>
      have hcolumn : index.column ∈ t.names := by
        refine h.resolve_right fun ⟨taken, hmem, hname⟩ => hany ?_
        rw [List.any_eq_true]
        exact ⟨taken, hmem, by simpa using hname⟩
      rw [if_pos hcolumn]
      exact ⟨_, rfl⟩

/-- What the script leaves of some indexes of one table. -/
structure Indexed (t : StoredTable) (indexes : List MirrorIndex) (db db' : Mirror) : Prop where
  tables : db'.tables = db.tables
  taken : ∀ index ∈ indexes, ∃ taken ∈ db'.indexes, taken.name = index.name
  grows : ∀ index ∈ db.indexes, index ∈ db'.indexes
  fresh : ∀ index ∈ db'.indexes, index ∈ db.indexes ∨ index ∈ indexes ∧ index.column ∈ t.names

theorem indexed_foldlM {t : StoredTable} {table : String} {indexes : List MirrorIndex}
    (ht : db.tables.lookup table = some t) (htable : ∀ index ∈ indexes, index.table = table)
    (h : indexes.foldlM Mirror.createIndex db = some db') : Indexed t indexes db db' := by
  induction indexes generalizing db with
  | nil =>
      cases h
      exact ⟨rfl, by simp, fun _ => id, fun _ => .inl⟩
  | cons index indexes ih =>
      rw [List.foldlM_cons, Option.bind_eq_bind, Option.bind_eq_some_iff] at h
      obtain ⟨mid, hstep, hrest⟩ := h
      have hindex : db.tables.lookup index.table = some t := by
        rw [htable index (by simp)]
        exact ht
      obtain ⟨htables, htaken, hone⟩ := createIndex_eq_some hindex hstep
      have rest := ih (by rw [htables]; exact ht) (fun other hother => htable other (by simp [hother]))
        hrest
      have hgrows : ∀ other ∈ db.indexes, other ∈ mid.indexes := by
        intro other hother
        rcases hone with heq | ⟨heq, -⟩
        · rw [heq]
          exact hother
        · rw [heq]
          exact List.mem_append_left _ hother
      refine ⟨rest.tables.trans htables, fun other hother => ?_, fun other hother =>
        rest.grows other (hgrows other hother), fun other hother => ?_⟩
      · rcases List.mem_cons.mp hother with rfl | hother
        · obtain ⟨taken, hmem, hname⟩ := htaken
          exact ⟨taken, rest.grows taken hmem, hname⟩
        · exact rest.taken other hother
      · rcases rest.fresh other hother with hmid | ⟨hmem, hcolumn⟩
        · rcases hone with heq | ⟨heq, hcolumn⟩
          · rw [heq] at hmid
            exact .inl hmid
          · rw [heq, List.mem_append, List.mem_singleton] at hmid
            rcases hmid with hmid | rfl
            · exact .inl hmid
            · exact .inr ⟨by simp, hcolumn⟩
        · exact .inr ⟨by simp [hmem], hcolumn⟩

theorem foldlM_createIndex_of_indexable {t : StoredTable} {table : String}
    {indexes : List MirrorIndex} (ht : db.tables.lookup table = some t)
    (htable : ∀ index ∈ indexes, index.table = table)
    (h : ∀ index ∈ indexes, index.column ∈ t.names ∨
      ∃ taken ∈ db.indexes, taken.name = index.name) :
    ∃ db', indexes.foldlM Mirror.createIndex db = some db' := by
  induction indexes generalizing db with
  | nil => exact ⟨db, rfl⟩
  | cons index indexes ih =>
      have hindex : db.tables.lookup index.table = some t := by
        rw [htable index (by simp)]
        exact ht
      obtain ⟨mid, hstep⟩ := createIndex_of_indexable hindex (h index (by simp))
      have hsingle : [index].foldlM Mirror.createIndex db = some mid := by
        simpa using hstep
      have one := indexed_foldlM ht (fun other hother => htable other (by simp_all)) hsingle
      rw [List.foldlM_cons, hstep, Option.bind_eq_bind, Option.bind_some]
      refine ih (by rw [one.tables]; exact ht) (fun other hother => htable other (by simp [hother]))
        fun other hother => ?_
      exact (h other (by simp [hother])).imp_right fun ⟨taken, hmem, hname⟩ =>
        ⟨taken, one.grows taken hmem, hname⟩

/-- `CREATE TABLE IF NOT EXISTS` -/
theorem createTable_eq (db : Mirror) (r : Mirrored) : ∃ t db₁,
    db.createTable r = r.indexes.foldlM Mirror.createIndex db₁ ∧
    db₁.tables.lookup r.table = some t ∧ db₁.indexes = db.indexes ∧
    (db.tables.lookup r.table = some t ∨ t = r.fresh) ∧
    (∀ table, table ≠ r.table → db₁.tables.lookup table = db.tables.lookup table) ∧
    ∀ t', db.tables.lookup r.table = some t' → t = t' ∧ db₁ = db := by
  rw [Mirror.createTable]
  cases hlookup : db.tables.lookup r.table with
  | some t =>
      refine ⟨t, db, rfl, hlookup, rfl, .inl rfl, fun _ _ => rfl, fun t' ht' => ?_⟩
      exact ⟨Option.some_inj.mp ht', rfl⟩
  | none =>
      refine ⟨r.fresh, _, rfl, AList.lookup_insert _, rfl, .inr rfl, fun table hne => ?_, ?_⟩
      · exact AList.lookup_insert_ne hne
      · intro t' ht'
        cases ht'

theorem made_createTable {r : Mirrored} (h : db.createTable r = some db') : Made [r] db db' := by
  obtain ⟨t, db₁, heq, ht, hindexes, hwas, hothers, hsame⟩ := createTable_eq db r
  rw [heq] at h
  have hindexed := indexed_foldlM ht (fun index => r.table_of_mem_indexes) h
  refine ⟨fun table t' ht' => ?_, ?_, fun table t' ht' => ?_, ?_, ?_, fun index hindex => ?_⟩
  · rw [hindexed.tables]
    by_cases htable : table = r.table
    · subst htable
      rw [← (hsame t' ht').1]
      exact ht
    · rw [hothers table htable, ht']
  · simp only [List.mem_singleton, forall_eq]
    exact ⟨t, by rw [hindexed.tables, ht]⟩
  · rw [hindexed.tables] at ht'
    by_cases htable : table = r.table
    · subst htable
      rw [ht, Option.some_inj] at ht'
      subst ht'
      exact hwas.imp_right fun hfresh => ⟨r, by simp, rfl, hfresh⟩
    · rw [hothers table htable] at ht'
      exact .inl ht'
  · simpa using hindexed.taken
  · rw [← hindexes]
    exact hindexed.grows
  · rw [← hindexes]
    refine (hindexed.fresh index hindex).imp_right fun ⟨hmem, hcolumn⟩ => ⟨⟨r, by simp, hmem⟩, t, ?_,
      hcolumn⟩
    rw [hindexed.tables, r.table_of_mem_indexes hmem, ht]

theorem Made.trans {r : Mirrored} {rs : List Mirrored} {mid : Mirror} (one : Made [r] db mid)
    (rest : Made rs mid db') : Made (r :: rs) db db' where
  old table t ht := rest.old table t (one.old table t ht)
  made other hother := by
    rcases List.mem_cons.mp hother with rfl | hother
    · obtain ⟨t, ht⟩ := one.made other (by simp)
      exact ⟨t, rest.old _ t ht⟩
    · exact rest.made other hother
  origin table t ht := by
    rcases rest.origin table t ht with hmid | ⟨other, hother, htable⟩
    · exact (one.origin table t hmid).imp_right fun ⟨other, hother, htable⟩ =>
        ⟨other, by simp_all, htable⟩
    · exact .inr ⟨other, by simp [hother], htable⟩
  indexed other hother index hindex := by
    rcases List.mem_cons.mp hother with rfl | hother
    · obtain ⟨taken, hmem, hname⟩ := one.indexed other (by simp) index hindex
      exact ⟨taken, rest.indexes taken hmem, hname⟩
    · exact rest.indexed other hother index hindex
  indexes index hindex := rest.indexes index (one.indexes index hindex)
  fresh index hindex := by
    rcases rest.fresh index hindex with hmid | ⟨⟨other, hother, hmem⟩, hcolumn⟩
    · refine (one.fresh index hmid).imp_right fun ⟨⟨other, hother, hmem⟩, t, ht, hcolumn⟩ => ?_
      exact ⟨⟨other, by simp_all, hmem⟩, t, rest.old _ t ht, hcolumn⟩
    · exact .inr ⟨⟨other, by simp [hother], hmem⟩, hcolumn⟩

theorem made_foldlM {rs : List Mirrored} (h : rs.foldlM Mirror.createTable db = some db') :
    Made rs db db' := by
  induction rs generalizing db with
  | nil =>
      cases h
      exact ⟨fun _ _ => id, by simp, fun _ _ => .inl, by simp, fun _ => id, fun _ => .inl⟩
  | cons r rs ih =>
      rw [List.foldlM_cons, Option.bind_eq_bind, Option.bind_eq_some_iff] at h
      obtain ⟨mid, hstep, hrest⟩ := h
      exact (made_createTable hstep).trans (ih hrest)

theorem Mirrored.indexable_fresh (r : Mirrored) {index : MirrorIndex} (h : index ∈ r.indexes) :
    index.column ∈ r.fresh.names := by
  rw [indexes, List.mem_cons, List.mem_map] at h
  rcases h with rfl | ⟨key, hkey, rfl⟩
  · exact List.mem_append_left _ (by simp [sharedColumns, uatIndex])
  · rw [List.mem_filter, decide_eq_true_eq] at hkey
    refine List.mem_append_right _ ?_
    simpa [Mirrored.fresh, Projection.column, keyIndex] using hkey.2

/-- The script goes through where every index can be made. -/
theorem foldlM_createTable_of_indexable {rs : List Mirrored} (hdistinct : (rs.map (·.table)).Nodup)
    (h : ∀ r ∈ rs, Indexable db r) : ∃ db', rs.foldlM Mirror.createTable db = some db' := by
  induction rs generalizing db with
  | nil => exact ⟨db, rfl⟩
  | cons r rs ih =>
      obtain ⟨t, db₁, heq, ht, hindexes, hwas, hothers, -⟩ := createTable_eq db r
      obtain ⟨mid, hstep⟩ := foldlM_createIndex_of_indexable ht
        (fun index => r.table_of_mem_indexes) fun index hindex => by
          rcases hwas with hwas | rfl
          · rw [hindexes]
            exact h r (by simp) t hwas index hindex
          · exact .inl (r.indexable_fresh hindex)
      have hindexed := indexed_foldlM ht (fun index => r.table_of_mem_indexes) hstep
      rw [List.foldlM_cons, heq, hstep, Option.bind_eq_bind, Option.bind_some]
      rw [List.map_cons, List.nodup_cons] at hdistinct
      refine ih hdistinct.2 fun other hother t' ht' index hindex => ?_
      have hne : other.table ≠ r.table := by
        intro htable
        exact hdistinct.1 (htable ▸ List.mem_map_of_mem hother)
      rw [hindexed.tables, hothers _ hne] at ht'
      refine (h other (by simp [hother]) t' ht' index hindex).imp_right fun ⟨taken, hmem, hname⟩ => ?_
      exact ⟨taken, hindexed.grows taken (by rw [hindexes]; exact hmem), hname⟩

theorem foldlM_createIndex_of_taken {t : StoredTable} {table : String} {indexes : List MirrorIndex}
    (ht : db.tables.lookup table = some t) (htable : ∀ index ∈ indexes, index.table = table)
    (h : ∀ index ∈ indexes, ∃ taken ∈ db.indexes, taken.name = index.name) :
    indexes.foldlM Mirror.createIndex db = some db := by
  induction indexes with
  | nil => rfl
  | cons index indexes ih =>
      have hany : db.indexes.any (·.name = index.name) = true := by
        simpa using h index (by simp)
      have hstep : db.createIndex index = some db := by
        rw [Mirror.createIndex, htable index (by simp), ht, Option.bind_eq_bind, Option.bind_some,
          if_pos hany]
      rw [List.foldlM_cons, hstep, Option.bind_eq_bind, Option.bind_some]
      exact ih (fun other hother => htable other (by simp [hother]))
        fun other hother => h other (by simp [hother])

/-- Once everything is there it does nothing. -/
theorem foldlM_createTable_of_made {rs : List Mirrored}
    (htables : ∀ r ∈ rs, ∃ t, db.tables.lookup r.table = some t)
    (hindexes : ∀ r ∈ rs, ∀ index ∈ r.indexes, ∃ taken ∈ db.indexes, taken.name = index.name) :
    rs.foldlM Mirror.createTable db = some db := by
  induction rs with
  | nil => rfl
  | cons r rs ih =>
      obtain ⟨t, ht⟩ := htables r (by simp)
      obtain ⟨t', db₁, heq, ht', -, -, -, hsame⟩ := createTable_eq db r
      obtain ⟨rfl, rfl⟩ := hsame t ht
      have hstep := foldlM_createIndex_of_taken ht (fun index => r.table_of_mem_indexes)
        (hindexes r (by simp))
      rw [List.foldlM_cons, heq, hstep, Option.bind_eq_bind, Option.bind_some]
      exact ih (fun other hother => htables other (by simp [hother]))
        fun other hother => hindexes other (by simp [hother])

end

/-! ## The whole reconcile -/

/-- What the reconcile of some resources leaves. -/
structure Reconciled (rs : List Mirrored) (s s' : Mirror × List String) : Prop where
  others : ∀ table, (∀ r ∈ rs, r.table ≠ table) → s'.1.tables.lookup table = s.1.tables.lookup table
  kept : ∀ table t, s.1.tables.lookup table = some t →
    ∃ t', s'.1.tables.lookup table = some t' ∧ t'.kept = t.kept
  indexes : ∀ index ∈ s.1.indexes, index ∈ s'.1.indexes
  grows : s.2.length ≤ s'.2.length
  worked : ∀ r ∈ rs, ∃ t t' indexes indexes' changes changes',
    s.1.tables.lookup r.table = some t ∧ s'.1.tables.lookup r.table = some t' ∧
      Worked t.names (columnDefinitions (t.sql r.table)) r.projections (t, indexes, changes)
        (t', indexes', changes') ∧
      (s'.2.length = s.2.length → changes'.length = changes.length)

section

variable {s s' : Mirror × List String} {r : Mirrored}

theorem reconcileTable_eq_some (h : reconcileTable s r = some s') : ∃ t t' indexes changes,
    s.1.tables.lookup r.table = some t ∧
    r.projections.foldlM (reconcileColumn r.table t.names (columnDefinitions (t.sql r.table)))
      (t, s.1.indexes, s.2) = some (t', indexes, changes) ∧
    s' = ({ tables := s.1.tables.update fun table t => if table = r.table then t' else t, indexes },
      changes) := by
  obtain ⟨db, changes⟩ := s
  rw [reconcileTable] at h
  simp only [Option.bind_eq_bind, Option.bind_eq_some_iff, Option.some_inj] at h
  obtain ⟨t, ht, ⟨t', indexes, changes'⟩, hfold, rfl⟩ := h
  exact ⟨t, t', indexes, changes', ht, hfold, rfl⟩

theorem Mirrored.notMem_shared (r : Mirrored) {p : Projection} (hp : p ∈ r.projections) :
    p.name ∉ sharedColumns := fun hmem =>
  (List.nodup_append.mp r.distinct).2.2 _ hmem _ (List.mem_map_of_mem hp) rfl

theorem reconciled_reconcileTable (h : reconcileTable s r = some s') : Reconciled [r] s s' := by
  obtain ⟨t, t', indexes, changes, ht, hfold, rfl⟩ := reconcileTable_eq_some h
  have work := worked_foldlM (fun p => r.notMem_shared) hfold
  refine ⟨fun table hne => ?_, fun table t₁ ht₁ => ?_, work.indexes, work.grows, ?_⟩
  · have hother : table ≠ r.table := fun heq => hne r (by simp) heq.symm
    simp [Sql.Table.lookup_update, hother]
  · by_cases htable : table = r.table
    · subst htable
      rw [ht, Option.some_inj] at ht₁
      subst ht₁
      exact ⟨t', by simp [ht], work.kept⟩
    · exact ⟨t₁, by simp [ht₁, htable], rfl⟩
  · simp only [List.mem_singleton, forall_eq]
    exact ⟨t, t', _, _, _, _, ht, by simp [ht], work, fun hlength => hlength⟩

theorem Reconciled.trans {rs : List Mirrored} {mid : Mirror × List String}
    (hnew : ∀ other ∈ rs, other.table ≠ r.table) (one : Reconciled [r] s mid)
    (rest : Reconciled rs mid s') : Reconciled (r :: rs) s s' where
  others table hne := (rest.others table fun other hother => hne other (by simp [hother])).trans
    (one.others table fun other hother => hne other (by simp_all))
  kept table t ht := by
    obtain ⟨t₁, ht₁, hone⟩ := one.kept table t ht
    obtain ⟨t₂, ht₂, htwo⟩ := rest.kept table t₁ ht₁
    exact ⟨t₂, ht₂, htwo.trans hone⟩
  indexes index hindex := rest.indexes index (one.indexes index hindex)
  grows := one.grows.trans rest.grows
  worked other hother := by
    have hone := one.grows
    have hgrows := rest.grows
    rcases List.mem_cons.mp hother with rfl | hother
    · obtain ⟨t, t', indexes, indexes', changes, changes', ht, ht', work, hlength⟩ :=
        one.worked other (by simp)
      exact ⟨t, t', indexes, indexes', changes, changes', ht, (rest.others _ hnew).trans ht', work,
        fun h => hlength (by omega)⟩
    · obtain ⟨t, t', indexes, indexes', changes, changes', ht, ht', work, hlength⟩ :=
        rest.worked other hother
      refine ⟨t, t', indexes, indexes', changes, changes', ?_, ht', work, fun h => hlength (by omega)⟩
      rw [← one.others _ fun q hq => ?_]
      · exact ht
      · rw [List.mem_singleton.mp hq]
        exact (hnew other hother).symm

theorem reconciled_foldlM {rs : List Mirrored} (hdistinct : (rs.map (·.table)).Nodup)
    (h : rs.foldlM reconcileTable s = some s') : Reconciled rs s s' := by
  induction rs generalizing s with
  | nil =>
      cases h
      exact ⟨fun _ _ => rfl, fun _ t ht => ⟨t, ht, rfl⟩, fun _ => id, le_rfl, by simp⟩
  | cons r rs ih =>
      rw [List.foldlM_cons, Option.bind_eq_bind, Option.bind_eq_some_iff] at h
      obtain ⟨mid, hstep, hrest⟩ := h
      rw [List.map_cons, List.nodup_cons] at hdistinct
      refine (reconciled_reconcileTable hstep).trans (fun other hother htable => ?_)
        (ih hdistinct.2 hrest)
      exact hdistinct.1 (htable ▸ List.mem_map_of_mem hother)

end

/-! ## Resting -/

/-- Every projection of the registry is there, and generated by exactly what it says. -/
def Reached (registry : Registry) (db : Mirror) : Prop :=
  ∀ r ∈ registry.resources, ∃ t, db.tables.lookup r.table = some t ∧ ∀ p ∈ r.projections, p.Stands t

/-- Every row holds what it held beside its projections, and every index is there. -/
structure Preserved (db db' : Mirror) : Prop where
  kept : ∀ table t, db.tables.lookup table = some t →
    ∃ t', db'.tables.lookup table = some t' ∧ t'.kept = t.kept
  indexes : ∀ index ∈ db.indexes, index ∈ db'.indexes

/-- One start-up reaches the registry and loses nothing, and the next one changes nothing. -/
def Settles (registry : Registry) (db : Mirror) : Prop :=
  ∃ db' changes, initMirror registry db = some (db', changes) ∧ Reached registry db' ∧
    Preserved db db' ∧ initMirror registry db' = some (db', [])

/-- Whatever a start-up does to the columns, it loses no row's own values and no index. -/
theorem preserved_of_initMirror {registry : Registry} {db db' : Mirror} {changes : List String}
    (h : initMirror registry db = some (db', changes)) : Preserved db db' := by
  rw [initMirror, Option.bind_eq_bind, Option.bind_eq_some_iff] at h
  obtain ⟨mid, hscript, hreconcile⟩ := h
  have made := made_foldlM hscript
  have reconciled := reconciled_foldlM registry.distinct hreconcile
  exact ⟨fun table t ht => reconciled.kept table t (made.old table t ht), fun index hindex =>
    reconciled.indexes index (made.indexes index hindex)⟩

/-- A projection that is generated stands as `CREATE TABLE` had it. One the writer fills is not
generated, where it is there. -/
def Projection.AsCreated (p : Projection) (t : StoredTable) : Prop :=
  match p.kind.body with
  | some body => ∃ col ∈ t.created, col.name = p.name ∧ col.body = some body
  | none => p.name ∉ t.names ∨ p.Stands t

/-- What the tables of a registry have to be like: every projection as created, and no foreign key
missing that an index is made for. -/
def AsCreated (registry : Registry) (db : Mirror) : Prop :=
  ∀ r ∈ registry.resources, ∀ t, db.tables.lookup r.table = some t →
    ∀ p ∈ r.projections, p.AsCreated t ∧ (p.name ∈ foreignKeys → p.name ∈ t.names ∨
      ∃ index ∈ db.indexes, index.name = (keyIndex r.table p.name).name)

section

variable {r : Mirrored} {t t' : StoredTable} {p : Projection} {table : String}

theorem Projection.Stands.mem_names (h : p.Stands t) : p.name ∈ t.names := by
  obtain ⟨col, hcol, hname, -⟩ := h
  rw [← hname]
  exact List.mem_append_right _ (List.mem_map_of_mem hcol)

/-- A column that `CREATE TABLE` had, of the right expression, is left alone. -/
theorem settled_of_created (htable : isName table = true)
    (h : ∀ body, p.kind.body = some body → ∃ col ∈ t.created, col.name = p.name ∧ col.body = some body)
    (hname : p.name ∈ t.names) : Settled t.names (columnDefinitions (t.sql table)) p := by
  refine ⟨hname, fun body hbody => ?_⟩
  obtain ⟨col, hcol, hcolumn, hsame⟩ := h body hbody
  rw [← hcolumn, t.definitionOf_created htable hcol]
  exact sameExpression_definition hsame

/-- A column that is left alone and is of the right expression is one that `CREATE TABLE` had. -/
theorem created_of_settled (htable : isName table = true) (hshared : p.name ∉ sharedColumns)
    {body : String} (hbody : p.kind.body = some body) (hstands : p.Stands t)
    (h : Settled t.names (columnDefinitions (t.sql table)) p) :
    ∃ col ∈ t.created, col.name = p.name ∧ col.body = some body := by
  by_contra hnone
  have hcreated : ∀ col ∈ t.created, col.name ≠ p.name := by
    intro col hcol hname
    obtain ⟨other, hother, hname', hbody'⟩ := hstands
    have hnodup := (List.nodup_append.mp t.distinct).2.1
    have heq : col = other := List.inj_on_of_nodup_map hnodup (List.mem_append_left _ hcol) hother
      (hname.trans hname'.symm)
    exact hnone ⟨col, hcol, hname, by rw [heq, hbody', hbody]⟩
  have hsame := h.2 body hbody
  rw [t.definitionOf_notCreated htable p.name_ok hshared hcreated,
    sameExpression_nil ((p.column true).body_ok body hbody).1] at hsame
  cases hsame

theorem Projection.AsCreated.stands {body : String} (hbody : p.kind.body = some body)
    (h : p.AsCreated t) : p.Stands t := by
  rw [AsCreated, hbody] at h
  obtain ⟨col, hcol, hname, hsame⟩ := h
  exact ⟨col, List.mem_append_left _ hcol, hname, hsame.trans hbody.symm⟩

/-- The reconcile of a table as created puts what the writer fills at its end, and the table is as
created afterwards, with every projection. -/
theorem reconcileTable_of_asCreated {s : Mirror × List String}
    (ht : s.1.tables.lookup r.table = some t) (h : ∀ p ∈ r.projections, p.AsCreated t) :
    ∃ t' changes, reconcileTable s r =
        some ({ s.1 with tables := s.1.tables.update fun table t => if table = r.table then t' else t },
          changes) ∧
      ∀ p ∈ r.projections, p.AsCreated t' ∧ p.Stands t' := by
  let missing := r.projections.filter (·.name ∉ t.names)
  have hsettled : ∀ p ∈ r.projections,
      Settled t.names (columnDefinitions (t.sql r.table)) p ∨ p.name ∉ t.names := by
    intro p hp
    by_cases hname : p.name ∈ t.names
    · refine .inl (settled_of_created r.table_ok (fun body hbody => ?_) hname)
      have hcreated := h p hp
      rw [Projection.AsCreated, hbody] at hcreated
      exact hcreated
    · exact .inr hname
  have hnodup : (t.names ++ missing.map (·.name)).Nodup := by
    refine List.nodup_append.mpr ⟨t.distinct, ?_, fun name hname other hother heq => ?_⟩
    · exact (List.nodup_append.mp r.distinct).2.1.sublist (List.filter_sublist.map _)
    · obtain ⟨p, hp, rfl⟩ := List.mem_map.mp hother
      have hmissing := (List.mem_filter.mp hp).2
      exact of_decide_eq_true hmissing (heq ▸ hname)
  obtain ⟨t', changes, hfold, hcreated, hadded⟩ :=
    foldlM_of_missing (s := (t, s.1.indexes, s.2)) hsettled hnodup
  have hold : ∀ col ∈ t.created ++ t.added, col ∈ t'.created ++ t'.added := by
    intro col hcol
    rw [hcreated, hadded, ← List.append_assoc]
    exact List.mem_append_left _ hcol
  refine ⟨t', changes, ?_, fun p hp => ?_⟩
  · rw [reconcileTable, ht, Option.bind_eq_bind, Option.bind_some, hfold]
    rfl
  · have hstands : p.Stands t' := by
      by_cases hname : p.name ∈ t.names
      · have hthere : p.Stands t := by
          have hp := h p hp
          cases hbody : p.kind.body with
          | some body => exact hp.stands hbody
          | none =>
              rw [Projection.AsCreated, hbody] at hp
              exact hp.resolve_left (not_not.mpr hname)
        obtain ⟨col, hcol, hcolumn⟩ := hthere
        exact ⟨col, hold col hcol, hcolumn⟩
      · refine ⟨p.column true, List.mem_append_right _ ?_, rfl, rfl⟩
        rw [hadded]
        exact List.mem_append_right _ (List.mem_map_of_mem (List.mem_filter.mpr ⟨hp, by simpa⟩))
    refine ⟨?_, hstands⟩
    have hp := h p hp
    cases hbody : p.kind.body with
    | some body =>
        rw [Projection.AsCreated, hbody] at hp ⊢
        rw [hcreated]
        exact hp
    | none =>
        rw [Projection.AsCreated, hbody]
        exact .inr hstands

/-- A table that is as created and has every projection is left as it is. -/
theorem reconcileTable_of_stands {s : Mirror × List String}
    (ht : s.1.tables.lookup r.table = some t)
    (h : ∀ p ∈ r.projections, p.AsCreated t ∧ p.Stands t) : reconcileTable s r = some s := by
  have hsettled : ∀ p ∈ r.projections, Settled t.names (columnDefinitions (t.sql r.table)) p := by
    intro p hp
    refine settled_of_created r.table_ok (fun body hbody => ?_) (h p hp).2.mem_names
    have hcreated := (h p hp).1
    rw [Projection.AsCreated, hbody] at hcreated
    exact hcreated
  have htables : (s.1.tables.update fun table t' => if table = r.table then t else t') =
      s.1.tables := by
    refine Sql.Table.update_eq_self fun table t' ht' => ?_
    by_cases htable : table = r.table
    · subst htable
      rw [if_pos rfl, ← Option.some_inj, ← ht, ht']
    · exact if_neg htable
  have hstep : reconcileTable s r = some ({ s.1 with
      tables := s.1.tables.update fun table t' => if table = r.table then t else t' }, s.2) := by
    rw [reconcileTable, ht, Option.bind_eq_bind, Option.bind_some, foldlM_of_settled hsettled]
    rfl
  rw [hstep, htables]

theorem foldlM_reconcileTable_of_asCreated {rs : List Mirrored}
    (hdistinct : (rs.map (·.table)).Nodup) {s : Mirror × List String}
    (h : ∀ r ∈ rs, ∃ t, s.1.tables.lookup r.table = some t ∧ ∀ p ∈ r.projections, p.AsCreated t) :
    ∃ db' changes, rs.foldlM reconcileTable s = some (db', changes) ∧
      db'.indexes = s.1.indexes ∧ ∀ r ∈ rs, ∃ t, db'.tables.lookup r.table = some t ∧
        ∀ p ∈ r.projections, p.AsCreated t ∧ p.Stands t := by
  induction rs generalizing s with
  | nil => exact ⟨s.1, s.2, rfl, rfl, by simp⟩
  | cons r rs ih =>
      obtain ⟨t, ht, hcreated⟩ := h r (by simp)
      obtain ⟨t', changes, hstep, hstands⟩ := reconcileTable_of_asCreated ht hcreated
      rw [List.map_cons, List.nodup_cons] at hdistinct
      have hne : ∀ other ∈ rs, other.table ≠ r.table := by
        intro other hother htable
        exact hdistinct.1 (htable ▸ List.mem_map_of_mem hother)
      rw [List.foldlM_cons, hstep, Option.bind_eq_bind, Option.bind_some]
      let mid : Mirror × List String :=
        ({ s.1 with tables := s.1.tables.update fun table t => if table = r.table then t' else t },
          changes)
      have hmid : ∀ other ∈ rs, ∃ t, mid.1.tables.lookup other.table = some t ∧
          ∀ p ∈ other.projections, p.AsCreated t := by
        intro other hother
        obtain ⟨t, ht, hcreated⟩ := h other (by simp [hother])
        exact ⟨t, by simp [mid, ht, hne other hother], hcreated⟩
      obtain ⟨db', changes', hrest, hindexes, hafter⟩ := ih hdistinct.2 hmid
      refine ⟨db', changes', hrest, hindexes, fun other hother => ?_⟩
      rcases List.mem_cons.mp hother with rfl | hother
      · refine ⟨t', ?_, hstands⟩
        rw [(reconciled_foldlM hdistinct.2 hrest).others _ hne]
        simp [mid, ht]
      · exact hafter other hother

theorem foldlM_reconcileTable_of_stands {rs : List Mirrored} {s : Mirror × List String}
    (h : ∀ r ∈ rs, ∃ t, s.1.tables.lookup r.table = some t ∧
      ∀ p ∈ r.projections, p.AsCreated t ∧ p.Stands t) :
    rs.foldlM reconcileTable s = some s := by
  induction rs with
  | nil => rfl
  | cons r rs ih =>
      obtain ⟨t, ht, hstands⟩ := h r (by simp)
      rw [List.foldlM_cons, reconcileTable_of_stands ht hstands, Option.bind_eq_bind,
        Option.bind_some]
      exact ih fun other hother => h other (by simp [hother])

end

/-! ### The names of indexes -/

/-- No name of a key ends in another after an underscore, so the name of an index tells the table
from the key. -/
theorem indexName_injective {table table' key key' : String} (hkey : key ∈ "uat" :: foreignKeys)
    (hkey' : key' ∈ "uat" :: foreignKeys)
    (h : table ++ "_" ++ key ++ "_idx" = table' ++ "_" ++ key' ++ "_idx") :
    table = table' ∧ key = key' := by
  have hsuffix : ∀ key ∈ "uat" :: foreignKeys, ∀ key' ∈ "uat" :: foreignKeys,
      "_".toList ++ key.toList <:+ "_".toList ++ key'.toList → key = key' := by
    decide +kernel
  have hlists : table.toList ++ ("_".toList ++ key.toList) =
      table'.toList ++ ("_".toList ++ key'.toList) := by
    have h := congrArg String.toList h
    simp only [String.toList_append] at h
    rw [← List.append_assoc, ← List.append_assoc]
    exact List.append_cancel_right h
  have hsame : key = key' := by
    have hleft : "_".toList ++ key.toList <:+ table.toList ++ ("_".toList ++ key.toList) :=
      List.suffix_append _ _
    have hright : "_".toList ++ key'.toList <:+ table.toList ++ ("_".toList ++ key.toList) := by
      rw [hlists]
      exact List.suffix_append _ _
    rcases List.suffix_or_suffix_of_suffix hleft hright with h | h
    · exact hsuffix key hkey key' hkey' h
    · exact (hsuffix key' hkey' key hkey h).symm
  subst hsame
  exact ⟨String.toList_inj.mp (List.append_cancel_right hlists), rfl⟩

theorem Mirrored.column_of_name {r : Mirrored} {index : MirrorIndex} (h : index ∈ r.indexes)
    {table key : String} (hkey : key ∈ foreignKeys) (hname : index.name = (keyIndex table key).name) :
    index.table = table ∧ index.column = key := by
  rw [indexes, List.mem_cons, List.mem_map] at h
  rcases h with rfl | ⟨other, hother, rfl⟩
  · have hsplit : r.table ++ "_" ++ "uat" ++ "_idx" = table ++ "_" ++ key ++ "_idx" := by
      rw [← show (keyIndex table key).name = table ++ "_" ++ key ++ "_idx" from rfl, ← hname,
        String.append_assoc, String.append_assoc]
      rfl
    have hsame := (indexName_injective List.mem_cons_self (List.mem_cons_of_mem _ hkey) hsplit).2
    subst hsame
    exact absurd hkey (by decide)
  · have hmem := (List.mem_filter.mp hother).1
    exact indexName_injective (List.mem_cons_of_mem _ hmem) (List.mem_cons_of_mem _ hkey) hname

theorem asCreated_of_settles {registry : Registry} {db : Mirror} (h : Settles registry db) :
    AsCreated registry db := by
  obtain ⟨db', changes, hinit, hreached, -, hagain⟩ := h
  rw [initMirror, Option.bind_eq_bind, Option.bind_eq_some_iff] at hinit hagain
  obtain ⟨mid, hscript, hreconcile⟩ := hinit
  obtain ⟨mid', hscript', hreconcile'⟩ := hagain
  have made := made_foldlM hscript
  have first := reconciled_foldlM registry.distinct hreconcile
  have second := reconciled_foldlM registry.distinct hreconcile'
  intro r hr t ht p hp
  obtain ⟨t₀, t', _, _, _, _, ht₀, ht', work, -⟩ := first.worked r hr
  obtain rfl : t₀ = t := Option.some_inj.mp (ht₀.symm.trans (made.old _ t ht))
  obtain ⟨t₁, ht₁, hstands⟩ := hreached r hr
  obtain rfl : t₁ = t' := Option.some_inj.mp (ht₁.symm.trans ht')
  obtain ⟨t₂, _, _, _, _, _, ht₂, -, work', hlength⟩ := second.worked r hr
  obtain rfl : t₂ = t₁ :=
    Option.some_inj.mp (ht₂.symm.trans ((made_foldlM hscript').old _ t₁ ht₁))
  have hsettled := work'.settled (hlength rfl) p hp
  refine ⟨?_, fun hkey => ?_⟩
  · cases hbody : p.kind.body with
    | some body =>
        obtain ⟨col, hcol, hsame⟩ := created_of_settled r.table_ok (r.notMem_shared hp) hbody
          (hstands p hp) hsettled
        rw [Projection.AsCreated, hbody]
        exact ⟨col, work.created col hcol, hsame⟩
    | none =>
        rw [Projection.AsCreated, hbody]
        refine or_iff_not_imp_left.mpr fun hname => ?_
        rw [not_not] at hname
        obtain ⟨col, hcol, hcolumn, hsame⟩ := hstands p hp
        refine ⟨col, (work.columns col hcol).resolve_right ?_, hcolumn, hsame⟩
        rintro ⟨q, hq, rfl, hacts⟩
        have heq : q = p :=
          List.inj_on_of_nodup_map (List.nodup_append.mp r.distinct).2.1 hq hp hcolumn
        subst heq
        exact hacts hname hbody
  · have hindex : keyIndex r.table p.name ∈ r.indexes := by
      refine List.mem_cons_of_mem _ (List.mem_map_of_mem (List.mem_filter.mpr ⟨hkey, ?_⟩))
      exact decide_eq_true (List.mem_map_of_mem hp)
    obtain ⟨taken, htaken, hname⟩ := made.indexed r hr _ hindex
    rcases made.fresh taken htaken with hold | ⟨⟨other, -, hmem⟩, t', ht', hcolumn⟩
    · exact .inr ⟨taken, hold, hname⟩
    · obtain ⟨htable, hcol⟩ := other.column_of_name hmem hkey hname
      rw [htable, ht₀, Option.some_inj] at ht'
      rw [hcol, ← ht'] at hcolumn
      exact .inl hcolumn

theorem Mirrored.asCreated_fresh (r : Mirrored) {p : Projection} (hp : p ∈ r.projections) :
    p.AsCreated r.fresh ∧ p.Stands r.fresh := by
  have hmem : p.column false ∈ r.fresh.created := List.mem_map_of_mem hp
  have hstands : p.Stands r.fresh := ⟨_, List.mem_append_left _ hmem, rfl, rfl⟩
  refine ⟨?_, hstands⟩
  cases hbody : p.kind.body with
  | some body =>
      rw [Projection.AsCreated, hbody]
      exact ⟨_, hmem, rfl, hbody⟩
  | none =>
      rw [Projection.AsCreated, hbody]
      exact .inr hstands

theorem settles_of_asCreated {registry : Registry} {db : Mirror} (h : AsCreated registry db) :
    Settles registry db := by
  have hindexable : ∀ r ∈ registry.resources, Indexable db r := by
    intro r hr t ht index hindex
    rw [Mirrored.indexes, List.mem_cons, List.mem_map] at hindex
    rcases hindex with rfl | ⟨key, hkey, rfl⟩
    · exact .inl (List.mem_append_left _ (by simp [sharedColumns, uatIndex]))
    · rw [List.mem_filter, decide_eq_true_eq] at hkey
      obtain ⟨p, hp, rfl⟩ := List.mem_map.mp hkey.2
      exact (h r hr t ht p hp).2 hkey.1
  obtain ⟨mid, hscript⟩ := foldlM_createTable_of_indexable registry.distinct hindexable
  have made := made_foldlM hscript
  have hcreated : ∀ r ∈ registry.resources, ∃ t, mid.tables.lookup r.table = some t ∧
      ∀ p ∈ r.projections, p.AsCreated t := by
    intro r hr
    obtain ⟨t, ht⟩ := made.made r hr
    refine ⟨t, ht, fun p hp => ?_⟩
    rcases made.origin _ t ht with hold | ⟨other, hother, htable, rfl⟩
    · exact (h r hr t hold p hp).1
    · obtain rfl : other = r := List.inj_on_of_nodup_map registry.distinct hother hr htable
      exact (other.asCreated_fresh hp).1
  obtain ⟨db', changes, hreconcile, hindexes, hstands⟩ :=
    foldlM_reconcileTable_of_asCreated (s := (mid, [])) registry.distinct hcreated
  have hinit : initMirror registry db = some (db', changes) := by
    rw [initMirror, hscript, Option.bind_eq_bind, Option.bind_some, hreconcile]
  refine ⟨db', changes, hinit, fun r hr => ?_, preserved_of_initMirror hinit, ?_⟩
  · obtain ⟨t, ht, hall⟩ := hstands r hr
    exact ⟨t, ht, fun p hp => (hall p hp).2⟩
  · have hscript' : registry.resources.foldlM Mirror.createTable db' = some db' := by
      refine foldlM_createTable_of_made (fun r hr => ?_) fun r hr index hindex => ?_
      · obtain ⟨t, ht, -⟩ := hstands r hr
        exact ⟨t, ht⟩
      · rw [hindexes]
        exact made.indexed r hr index hindex
    rw [initMirror, hscript', Option.bind_eq_bind, Option.bind_some,
      foldlM_reconcileTable_of_stands (s := (db', [])) hstands]

/-- A database is brought to the registry by one start-up and left alone by the next exactly when
every generated column of its tables was there, as it has to be, when the table was made. -/
theorem settles_iff (registry : Registry) (db : Mirror) :
    Settles registry db ↔ AsCreated registry db :=
  ⟨asCreated_of_settles, settles_of_asCreated⟩

/-- The first start-up of all makes every table as its DDL has it. -/
theorem initMirror_empty (registry : Registry) : ∃ db, initMirror registry {} = some (db, []) ∧
    ∀ r ∈ registry.resources, db.tables.lookup r.table = some r.fresh := by
  obtain ⟨db, hscript⟩ := foldlM_createTable_of_indexable registry.distinct
    (show ∀ r ∈ registry.resources, Indexable {} r from fun r _ t ht => by simp at ht)
  have made := made_foldlM hscript
  have hfresh : ∀ r ∈ registry.resources, db.tables.lookup r.table = some r.fresh := by
    intro r hr
    obtain ⟨t, ht⟩ := made.made r hr
    rcases made.origin _ t ht with hold | ⟨other, hother, htable, rfl⟩
    · simp at hold
    · obtain rfl : other = r := List.inj_on_of_nodup_map registry.distinct hother hr htable
      exact ht
  refine ⟨db, ?_, hfresh⟩
  rw [initMirror, hscript, Option.bind_eq_bind, Option.bind_some]
  exact foldlM_reconcileTable_of_stands fun r hr =>
    ⟨r.fresh, hfresh r hr, fun p hp => r.asCreated_fresh hp⟩

/-! ### A projection the registry gains -/

def firstName : Projection where
  name := "first_name"
  sqltype := "TEXT"
  kind := .json "$.attributes.first_name"
  name_ok := by decide
  sqltype_ok := by decide
  oneLine := by
    rintro body ⟨⟩
    exact Text.forall_of_all (by decide +kernel)

def anniversary : Projection where
  name := "anniversary"
  sqltype := "TEXT"
  kind := .json "$.attributes.anniversary"
  name_ok := by decide
  sqltype_ok := by decide
  oneLine := by
    rintro body ⟨⟩
    exact Text.forall_of_all (by decide +kernel)

def person (projections : List Projection)
    (distinct : (sharedColumns ++ projections.map (·.name)).Nodup) : Mirrored where
  table := "person"
  projections := projections
  table_ok := by decide
  distinct := distinct

def onePerson : Mirrored :=
  person [firstName] (by decide)

def onePersonLater : Mirrored :=
  person [firstName, anniversary] (by decide)

/-- A column that the registry gains is found by no later start-up, and every one of them replaces
it. -/
theorem added_not_settled : ¬∀ (earlier current : Registry) (db : Mirror) (changes : List String),
    initMirror earlier {} = some (db, changes) → Settles current db := by
  intro h
  obtain ⟨db, hinit, hfresh⟩ := initMirror_empty ⟨[onePerson], by simp⟩
  have hsettles := h _ ⟨[onePersonLater], by simp⟩ db [] hinit
  have hcreated := asCreated_of_settles hsettles onePersonLater (by simp) onePerson.fresh
    (hfresh onePerson (by simp)) anniversary (by simp [onePersonLater, person])
  obtain ⟨col, hcol, hname, -⟩ := hcreated.1
  obtain ⟨p, hp, rfl⟩ := List.mem_map.mp hcol
  obtain rfl : p = firstName := List.mem_singleton.mp hp
  exact absurd hname (by decide)

end PcoMirror.Schema
