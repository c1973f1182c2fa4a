/-
  The foreign keys of a MySQL snapshot. The rows of one constraint are its columns, but the
  loop makes an edge and a constraint of each row: a constraint on several columns comes out
  as several constraints on one column each. `regrouped_iff` says when every constraint comes
  out as one.
-/
import PgErdCloud.Mysql.Introspect
import PgErdCloud.Lib.Fallible

namespace PgErdCloud.Mysql

open Lib Lib.PyStr Lib.Fallible

/-! ## Rows of foreign keys -/

/-- A row of a foreign key between two tables of the snapshot. -/
structure FkRow where
  row : KeyUsageRow
  child : Nat
  parentKey : Str × Str
  parent : Nat

/-- A row of another key has none, and neither has one with a table that is not in the
    snapshot: the loop skips it. -/
def KeyUsageRow.foreignKey (oids : Dict (Str × Str) Nat) (row : KeyUsageRow) : Option FkRow :=
  if strOf row.constraintName = "PRIMARY".toList then none
  else (oids.get? (row.tableSchema, row.tableName)).bind fun child =>
    row.parentKey.bind fun parentKey =>
      (oids.get? parentKey).map fun parent => ⟨row, child, parentKey, parent⟩

/-- The rows of key usage that are foreign keys between known tables. -/
def fkRows (oids : Dict (Str × Str) Nat) (keyUsage : List KeyUsageRow) : List FkRow :=
  keyUsage.filterMap (KeyUsageRow.foreignKey oids)

namespace FkRow

/-- Schema, table and name of the constraint. -/
def key (r : FkRow) : Str × Str × Str :=
  (r.row.tableSchema, r.row.tableName, r.row.constraintName.getD [])

/-- The two columns of a row. -/
def columns (r : FkRow) : Str × Str := (r.row.columnName, strOf r.row.referencedColumnName)

/-- The edge of a row that is the `edgeId`-th. -/
def edge (r : FkRow) (edgeId : Nat) : FkEdge := newEdge r.row edgeId r.child r.parent

end FkRow

theorem foreignKey_spec {oids : Dict (Str × Str) Nat} {row : KeyUsageRow} {r : FkRow}
    (h : row.foreignKey oids = some r) :
    r.row = row ∧ oids.get? (row.tableSchema, row.tableName) = some r.child ∧
      oids.get? r.parentKey = some r.parent := by
  unfold KeyUsageRow.foreignKey at h
  split_ifs at h
  obtain ⟨child, hchild, h⟩ := Option.bind_eq_some_iff.mp h
  obtain ⟨parentKey, -, h⟩ := Option.bind_eq_some_iff.mp h
  obtain ⟨parent, hparent, rfl⟩ := Option.map_eq_some_iff.mp h
  exact ⟨rfl, hchild, hparent⟩

theorem mem_fkRows_spec {oids : Dict (Str × Str) Nat} {keyUsage : List KeyUsageRow} {r : FkRow}
    (h : r ∈ fkRows oids keyUsage) :
    oids.get? (r.row.tableSchema, r.row.tableName) = some r.child ∧
      oids.get? r.parentKey = some r.parent := by
  obtain ⟨row, -, hr⟩ := List.mem_filterMap.mp h
  obtain ⟨rfl, hchild, hparent⟩ := foreignKey_spec hr
  exact ⟨hchild, hparent⟩

/-! ## What the loop collects -/

theorem fkEdges_addKeyUsage (oids : Dict (Str × Str) Nat) (keys : KeyUsage) (row : KeyUsageRow) :
    (addKeyUsage oids keys row).fkEdges = keys.fkEdges ++
      ((row.foreignKey oids).map fun r => r.edge (keys.fkEdges.length + 1)).toList := by
  unfold addKeyUsage KeyUsageRow.foreignKey
  cases oids.get? (row.tableSchema, row.tableName) with
  | none =>
      rw [Option.bind_none, ite_self]
      exact (List.append_nil _).symm
  | some child =>
      dsimp only
      split_ifs with hprimary
      · simp
      · cases hkey : row.parentKey with
        | none => simp
        | some parentKey =>
            cases hparent : oids.get? parentKey with
            | none => simp [hparent]
            | some parent => simp [hparent, FkRow.edge]

/-- **The edges of the loop:** one for each row of a foreign key, numbered in their order. -/
theorem fkEdges_readKeyUsage (oids : Dict (Str × Str) Nat) (keyUsage : List KeyUsageRow) :
    (readKeyUsage oids keyUsage).fkEdges =
      ((fkRows oids keyUsage).zipIdx 1).map fun r => r.1.edge r.2 := by
  induction keyUsage using List.reverseRecOn with
  | nil => rfl
  | append_singleton rows row ih =>
      have hfold : readKeyUsage oids (rows ++ [row]) =
          addKeyUsage oids (readKeyUsage oids rows) row := by
        simp [readKeyUsage]
      have hrows : fkRows oids (rows ++ [row]) =
          fkRows oids rows ++ (row.foreignKey oids).toList := by
        simp only [fkRows, List.filterMap_append]
        cases hr : row.foreignKey oids <;> simp [hr]
      rw [hfold, fkEdges_addKeyUsage, ih, hrows, List.zipIdx_append, List.map_append]
      congr 1
      cases row.foreignKey oids with
      | none => rfl
      | some r => simp [Nat.add_comm]

/-! ## Object ids -/

variable (unicode : Unicode)

/-- An object id leads back to the table it was given to. -/
theorem relByOid_eq_ok {tables : List TableRow} {key : Str × Str} {oid : Nat}
    (h : (oidByTable tables).get? key = some oid) :
    ∃ rel, relByOid (newRelations unicode tables) oid = .ok rel ∧
      (rel.schemaName, rel.relationName) = key := by
  have hrow : ∃ row ∈ tables.zipIdx 1, row.1.key = key ∧ row.2 = oid :=
    Dict.exists_of_get?_foldl_set h
  obtain ⟨⟨row, i⟩, hm, rfl, rfl⟩ := hrow
  have hmem : newRelation unicode (row, i) ∈ (newRelations unicode tables).reverse :=
    List.mem_reverse.mpr (List.mem_map_of_mem hm)
  unfold relByOid
  cases hfind : (newRelations unicode tables).reverse.find? (·.relationOid = i) with
  | none =>
      rw [List.find?_eq_none] at hfind
      exact absurd (decide_eq_true rfl) (hfind _ hmem)
  | some rel =>
      obtain ⟨⟨row', j⟩, hm', rfl⟩ :=
        List.mem_map.mp (List.mem_reverse.mp (List.mem_of_find?_eq_some hfind))
      have hj : (newRelation unicode (row', j)).relationOid = i := by
        simpa using List.find?_some hfind
      obtain rfl : j = i := hj
      obtain ⟨-, -, hrow⟩ := List.mem_zipIdx hm
      obtain ⟨-, -, hrow'⟩ := List.mem_zipIdx hm'
      exact ⟨_, rfl, by rw [hrow, hrow']; rfl⟩

/-- Every entry of the primary keys belongs to a table. -/
theorem get?_of_mem_pkColsByOid (oids : Dict (Str × Str) Nat) (keyUsage : List KeyUsageRow) :
    ∀ oid ∈ (readKeyUsage oids keyUsage).pkColsByOid.keys, ∃ key, oids.get? key = some oid := by
  unfold readKeyUsage
  refine List.foldlRecOn (motive := fun keys : KeyUsage =>
    ∀ oid ∈ keys.pkColsByOid.keys, ∃ key, oids.get? key = some oid) keyUsage _ ?_ ?_
  · intro oid hm
    exact absurd hm List.not_mem_nil
  · intro keys ih row _ oid hm
    unfold addKeyUsage at hm
    cases hchild : oids.get? (row.tableSchema, row.tableName) with
    | none =>
        rw [hchild] at hm
        exact ih oid hm
    | some child =>
        rw [hchild] at hm
        dsimp only at hm
        split_ifs at hm with hprimary
        · obtain ⟨columns, hget⟩ := Dict.mem_keys_iff.mp hm
          rw [Dict.get?_set] at hget
          split_ifs at hget with he
          · exact ⟨_, he ▸ hchild⟩
          · exact ih oid (Dict.mem_keys_iff.mpr ⟨columns, hget⟩)
        · cases hparent : row.parentKey.bind oids.get? with
          | none =>
              rw [hparent] at hm
              exact ih oid hm
          | some parent =>
              rw [hparent] at hm
              exact ih oid hm

/-! ## The snapshot -/

/-- The constraint of a row, before it is stored. -/
def FkRow.constraint (pos : Dict (Nat × Str) Int) (r : FkRow) (edgeId : Nat) : Constraint where
  constraintOid := 300000 + (100000 + edgeId)
  constraintName := (r.edge edgeId).fkConstraintName
  constraintType := "f".toList
  schemaName := r.row.tableSchema
  relationOid := r.child
  relationName := r.row.tableName
  constrainedAttnums := [(pos.get? (r.child, r.row.columnName)).getD 1]
  constraintDef := piecesText (foreignKeyPieces [r.columns.1] r.parentKey.1 r.parentKey.2
    [r.columns.2])

theorem fkConstraint_edge {tables : List TableRow} {keyUsage : List KeyUsageRow} {r : FkRow}
    (hr : r ∈ fkRows (oidByTable tables) keyUsage) (pos : Dict (Nat × Str) Int) (edgeId : Nat) :
    fkConstraint (newRelations unicode tables) pos (r.edge edgeId) =
      .ok (r.constraint pos edgeId) := by
  obtain ⟨hchild, hparent⟩ := mem_fkRows_spec hr
  obtain ⟨child, hrel, hnames⟩ := relByOid_eq_ok unicode hchild
  obtain ⟨parent, hrel', hnames'⟩ := relByOid_eq_ok unicode hparent
  obtain ⟨hschema, hname⟩ := Prod.mk.inj hnames
  refine bind_eq_ok.mpr ⟨child, hrel, bind_eq_ok.mpr ⟨parent, hrel', ?_⟩⟩
  rw [hschema, hname]
  simp only [FkRow.constraint, ← hnames']
  rfl

/-- What is stored of a constraint. -/
def Constraint.stored (con : Constraint) : Constraint := { con with
  constraintName := stripNul con.constraintName
  constraintType := stripNul con.constraintType
  schemaName := stripNul con.schemaName
  relationName := stripNul con.relationName
  constraintDef := stripNul con.constraintDef }

/-- The row as it is stored, without NUL characters. -/
def FkEdge.stored (edge : FkEdge) : FkEdge := { edge with
  fkConstraintName := stripNul edge.fkConstraintName
  childColumnName := stripNul edge.childColumnName
  parentColumnName := stripNul edge.parentColumnName }

/-- The constraints of the rows of foreign keys, before they are stored. -/
def fkConstraints (pos : Dict (Nat × Str) Int) (rows : List FkRow) : List Constraint :=
  (rows.zipIdx 1).map fun r => r.1.constraint pos r.2

/-- **The snapshot always exists:** no table is looked up that is not there. -/
theorem rowsToSnapshot_eq (tables : List TableRow) (columns : List ColumnRow)
    (keyUsage : List KeyUsageRow) (indexes : List StatisticsRow) :
    ∃ pos pks, (readKeyUsage (oidByTable tables) keyUsage).pkColsByOid.items.mapM
        (pkConstraint (newRelations unicode tables) pos) = .ok pks ∧
      rowsToSnapshot unicode tables columns keyUsage indexes = .ok (Snapshot.sanitize {
        relations := newRelations unicode tables
        columns := outColumns unicode (oidByTable tables) columns
        constraints := pks ++ fkConstraints pos (fkRows (oidByTable tables) keyUsage)
        indexes := outIndexes (oidByTable tables) indexes
        pkColumns := (readKeyUsage (oidByTable tables) keyUsage).pkColumns
        fkEdges := (readKeyUsage (oidByTable tables) keyUsage).fkEdges }) := by
  let oids := oidByTable tables
  let keys := readKeyUsage oids keyUsage
  let pos := posByOidCol (outColumns unicode oids columns)
  have hpks : ∃ pks, keys.pkColsByOid.items.mapM
      (pkConstraint (newRelations unicode tables) pos) = .ok pks := by
    apply exists_mapM_eq_ok
    intro entry hm
    obtain ⟨key, hkey⟩ := get?_of_mem_pkColsByOid oids keyUsage entry.1 (List.mem_map_of_mem hm)
    obtain ⟨rel, hrel, -⟩ := relByOid_eq_ok unicode hkey
    exact ⟨_, bind_eq_ok.mpr ⟨rel, hrel, rfl⟩⟩
  obtain ⟨pks, hpks⟩ := hpks
  have hfks : keys.fkEdges.mapM (fkConstraint (newRelations unicode tables) pos) =
      .ok (fkConstraints pos (fkRows oids keyUsage)) := by
    have hedges : keys.fkEdges = _ := fkEdges_readKeyUsage oids keyUsage
    rw [mapM_eq_ok, hedges, fkConstraints, List.forall₂_map_left_iff, List.forall₂_map_right_iff,
      List.forall₂_same]
    intro r hr
    exact fkConstraint_edge unicode (List.fst_mem_of_mem_zipIdx hr) pos r.2
  exact ⟨pos, pks, hpks, bind_eq_ok.mpr ⟨pks, hpks, bind_eq_ok.mpr ⟨_, hfks, rfl⟩⟩⟩

/-- The foreign keys of the snapshot are those of the rows, one constraint and one edge for
    each. -/
theorem rowsToSnapshot_eq_ok (tables : List TableRow) (columns : List ColumnRow)
    (keyUsage : List KeyUsageRow) (indexes : List StatisticsRow) :
    ∃ s, rowsToSnapshot unicode tables columns keyUsage indexes = .ok s ∧
      s.fkEdges = ((fkRows (oidByTable tables) keyUsage).zipIdx 1).map
        (fun r => (r.1.edge r.2).stored) ∧
      ∃ pos, s.constraints.filter (fun con => con.constraintType = "f".toList) =
        ((fkRows (oidByTable tables) keyUsage).zipIdx 1).map
          fun r => (r.1.constraint pos r.2).stored := by
  obtain ⟨pos, pks, hpks, hs⟩ := rowsToSnapshot_eq unicode tables columns keyUsage indexes
  have hpkType : ∀ con ∈ pks, con.constraintType = "p".toList := by
    intro con hm
    obtain ⟨entry, -, hentry⟩ := exists_input_of_mapM hpks hm
    obtain ⟨rel, -, hcon⟩ := bind_eq_ok.mp hentry
    obtain rfl := Except.ok.inj hcon
    rfl
  refine ⟨_, hs, ?_, pos, ?_⟩
  · show (readKeyUsage _ _).fkEdges.map FkEdge.stored = _
    rw [fkEdges_readKeyUsage, List.map_map]
    rfl
  · show ((pks ++ _).map Constraint.stored).filter _ = _
    rw [List.map_append, List.filter_append, fkConstraints, List.map_map]
    have hnone : (pks.map Constraint.stored).filter
        (fun con => con.constraintType = "f".toList) = [] := by
      rw [List.filter_eq_nil_iff]
      intro con hm
      obtain ⟨con', hm', rfl⟩ := List.mem_map.mp hm
      simp [Constraint.stored, hpkType con' hm', stripNul]
    have hall : ∀ con ∈ ((fkRows (oidByTable tables) keyUsage).zipIdx 1).map
        (Constraint.stored ∘ fun r => r.1.constraint pos r.2),
        decide (con.constraintType = "f".toList) = true := by
      intro con hm
      obtain ⟨r, -, rfl⟩ := List.mem_map.mp hm
      simp [Constraint.stored, FkRow.constraint, stripNul]
    rw [hnone, List.nil_append, List.filter_eq_self.mpr hall]
    rfl

/-! ## Constraints that come out as one -/

/-- What a constraint is called. -/
def Constraint.key (con : Constraint) : Str × Str × Str :=
  (con.schemaName, con.relationName, con.constraintName)

/-- The rows of a constraint in ordinal order. -/
def constraintRows (rows : List FkRow) (key : Str × Str × Str) : List FkRow :=
  sortedBy (fun a b => decide (orInt a.row.ordinalPosition 1 ≤ orInt b.row.ordinalPosition 1))
    (rows.filter fun r => r.key = key)

/-- The definition of a constraint with these rows. -/
def foreignKeyDef (rows : List FkRow) : Str :=
  let parent := (rows.head?.map FkRow.parentKey).getD ([], [])
  piecesText (foreignKeyPieces (rows.map fun r => r.columns.1) parent.1 parent.2
    (rows.map fun r => r.columns.2))

/-- The edges of a constraint. -/
def edgesOf (oids : Dict (Str × Str) Nat) (s : Snapshot) (key : Str × Str × Str) : List FkEdge :=
  s.fkEdges.filter fun edge => oids.get? (key.1, key.2.1) = some edge.childRelationOid ∧
    edge.fkConstraintName = key.2.2

/-- A constraint comes out as one: one constraint that lists its columns in ordinal order, and
    one edge for each row under an object id of its own. -/
structure Regrouped (oids : Dict (Str × Str) Nat) (rows : List FkRow) (s : Snapshot)
    (key : Str × Str × Str) : Prop where
  constraint : ∃ con, s.constraints.filter
      (fun con => con.constraintType = "f".toList ∧ con.key = key) = [con] ∧
    con.constraintDef = foreignKeyDef (constraintRows rows key)
  edges : ∃ oid,
    ((edgesOf oids s key).map fun edge =>
      (edge.fkConstraintOid, edge.childColumnName, edge.parentColumnName)).Perm
        ((constraintRows rows key).map fun r => (oid, r.columns)) ∧
    ∀ edge ∈ s.fkEdges, edge.fkConstraintOid = oid → edge ∈ edgesOf oids s key

/-- The constraint has a name, and there is no `NUL` in the names that identify it. -/
def FkRow.KeyNamed (r : FkRow) : Prop :=
  r.key.2.2 ≠ [] ∧ '\x00' ∉ r.key.1 ∧ '\x00' ∉ r.key.2.1 ∧ '\x00' ∉ r.key.2.2

/-- The constraint has a name, and there is no `NUL` in any name of its row. -/
def FkRow.Named (r : FkRow) : Prop :=
  r.KeyNamed ∧ '\x00' ∉ r.columns.1 ∧ '\x00' ∉ r.columns.2 ∧
    '\x00' ∉ r.parentKey.1 ∧ '\x00' ∉ r.parentKey.2

/-- The one element with its key. -/
theorem filter_eq_singleton {α κ : Type} [DecidableEq κ] {f : α → κ} {xs : List α}
    (h : (xs.map f).Nodup) {x : α} (hx : x ∈ xs) : xs.filter (fun y => f y = f x) = [x] := by
  induction xs with
  | nil => exact absurd hx List.not_mem_nil
  | cons y ys ih =>
      rw [List.map_cons, List.nodup_cons] at h
      rcases List.mem_cons.mp hx with rfl | hx
      · have hnone : ys.filter (fun y => f y = f x) = [] := by
          rw [List.filter_eq_nil_iff]
          intro z hz he
          exact h.1 (of_decide_eq_true he ▸ List.mem_map_of_mem hz)
        rw [List.filter_cons_of_pos (by simp), hnone]
      · have hne : f y ≠ f x := fun he => h.1 (he ▸ List.mem_map_of_mem hx)
        rw [List.filter_cons_of_neg (by simpa using hne), ih h.2 hx]

/-! ### Names -/

theorem orText_eq (value : Option Str) (other : Str) :
    orText value other = if value.getD [] = [] then other else value.getD [] := by
  unfold orText
  cases value with
  | none => simp
  | some text => by_cases h : text = [] <;> simp [h, Option.filter_some]

theorem fkConstraintName_eq (r : FkRow) (edgeId : Nat) :
    (r.edge edgeId).fkConstraintName =
      if r.key.2.2 = [] then "fk_".toList ++ (toString edgeId).toList else r.key.2.2 :=
  orText_eq _ _

/-- A stored constraint never loses its whole name. -/
theorem stripNul_fkConstraintName_ne_nil {r : FkRow} (h : '\x00' ∉ r.key.2.2) (edgeId : Nat) :
    stripNul (r.edge edgeId).fkConstraintName ≠ [] := by
  rw [fkConstraintName_eq]
  split_ifs with hname
  · have hf : 'f' ∈ stripNul ("fk_".toList ++ (toString edgeId).toList) :=
      List.mem_filter.mpr ⟨by simp, by decide⟩
    exact List.ne_nil_of_mem hf
  · rw [stripNul_eq_iff.mpr h]
    exact hname

theorem key_stored {r : FkRow} (h : r.KeyNamed) (pos : Dict (Nat × Str) Int) (edgeId : Nat) :
    (r.constraint pos edgeId).stored.key = r.key := by
  obtain ⟨hne, hschema, htable, hname⟩ := h
  have hstored : (r.constraint pos edgeId).stored.key = (stripNul r.key.1, stripNul r.key.2.1,
      stripNul (r.edge edgeId).fkConstraintName) := rfl
  rw [hstored, fkConstraintName_eq, if_neg hne, stripNul_eq_iff.mpr hschema,
    stripNul_eq_iff.mpr htable, stripNul_eq_iff.mpr hname]

theorem nul_not_mem_def_iff (r : FkRow) (pos : Dict (Nat × Str) Int) (edgeId : Nat) :
    '\x00' ∉ (r.constraint pos edgeId).constraintDef ↔
      '\x00' ∉ r.columns.1 ∧ '\x00' ∉ r.columns.2 ∧
        '\x00' ∉ r.parentKey.1 ∧ '\x00' ∉ r.parentKey.2 := by
  simp [FkRow.constraint, piecesText, foreignKeyPieces, listPieces, Piece.text, List.intercalate]
  tauto

theorem foreignKeyDef_singleton (r : FkRow) (pos : Dict (Nat × Str) Int) (edgeId : Nat) :
    foreignKeyDef [r] = (r.constraint pos edgeId).constraintDef := rfl

/-- Tables have object ids of their own. -/
theorem oidByTable_injective {tables : List TableRow} {key key' : Str × Str} {oid : Nat}
    (h : (oidByTable tables).get? key = some oid) (h' : (oidByTable tables).get? key' = some oid) :
    key = key' := by
  obtain ⟨rel, hrel, hkey⟩ := relByOid_eq_ok asciiUnicode h
  obtain ⟨rel', hrel', hkey'⟩ := relByOid_eq_ok asciiUnicode h'
  rw [hrel, Except.ok.injEq] at hrel'
  rw [← hkey, ← hkey', hrel']

/-! ### Exactly when -/

section
variable {tables : List TableRow} {keyUsage : List KeyUsageRow} {s : Snapshot}
  {pos : Dict (Nat × Str) Int} {rows : List FkRow}

/-- The constraints under a key come from its rows. -/
theorem constraints_of_key (hcons : s.constraints.filter
      (fun con => con.constraintType = "f".toList) =
        (rows.zipIdx 1).map fun r => (r.1.constraint pos r.2).stored)
    (hnamed : ∀ r ∈ rows, r.KeyNamed) (key : Str × Str × Str) :
    s.constraints.filter (fun con => con.constraintType = "f".toList ∧ con.key = key) =
      ((rows.zipIdx 1).filter fun r => r.1.key = key).map
        fun r => (r.1.constraint pos r.2).stored := by
  have hsplit : s.constraints.filter
      (fun con => con.constraintType = "f".toList ∧ con.key = key) =
      (s.constraints.filter fun con => con.constraintType = "f".toList).filter
        fun con => con.key = key := by
    rw [List.filter_filter]
    congr 1
    funext con
    rw [Bool.decide_and, Bool.and_comm]
  rw [hsplit, hcons, List.filter_map]
  congr 1
  apply List.filter_congr
  intro r hr
  simp only [Function.comp_apply, key_stored (hnamed r.1 (List.fst_mem_of_mem_zipIdx hr))]

theorem map_key_zipIdx (rows : List FkRow) :
    ((rows.zipIdx 1).map fun p => p.1.key) = rows.map FkRow.key := by
  show (rows.zipIdx 1).map (FkRow.key ∘ Prod.fst) = _
  rw [← List.map_map, List.zipIdx_map_fst]

theorem exists_mem_zipIdx {r : FkRow} (hr : r ∈ rows) : ∃ i, (r, i) ∈ rows.zipIdx 1 := by
  rw [← List.zipIdx_map_fst 1 rows] at hr
  obtain ⟨⟨q, i⟩, hm, rfl⟩ := List.mem_map.mp hr
  exact ⟨i, hm⟩

theorem zipIdx_filter_eq_singleton (hkeys : (rows.map FkRow.key).Nodup) {r : FkRow} {i : Nat}
    (h : (r, i) ∈ rows.zipIdx 1) :
    (rows.zipIdx 1).filter (fun p => p.1.key = r.key) = [(r, i)] := by
  have hnodup : ((rows.zipIdx 1).map fun p => p.1.key).Nodup := by
    rw [map_key_zipIdx]
    exact hkeys
  exact filter_eq_singleton hnodup h

theorem constraintRows_eq_singleton (hkeys : (rows.map FkRow.key).Nodup) {r : FkRow}
    (hr : r ∈ rows) : constraintRows rows r.key = [r] := by
  rw [constraintRows, filter_eq_singleton hkeys hr]
  rfl

/-- Single rows come out as constraints of their own. -/
theorem regrouped_of_named (hrows : rows = fkRows (oidByTable tables) keyUsage)
    (hcons : s.constraints.filter (fun con => con.constraintType = "f".toList) =
      (rows.zipIdx 1).map fun r => (r.1.constraint pos r.2).stored)
    (hedges : s.fkEdges = (rows.zipIdx 1).map fun r => (r.1.edge r.2).stored)
    (hkeys : (rows.map FkRow.key).Nodup) (hnamed : ∀ r ∈ rows, r.Named) {r : FkRow}
    (hr : r ∈ rows) : Regrouped (oidByTable tables) rows s r.key := by
  obtain ⟨i, hi⟩ := exists_mem_zipIdx hr
  have hmem : ∀ p ∈ rows.zipIdx 1, p.1 ∈ rows := fun p hp => List.fst_mem_of_mem_zipIdx hp
  have hedgesOf : edgesOf (oidByTable tables) s r.key = [(r.edge i).stored] := by
    unfold edgesOf
    have hone : [(r.edge i).stored] = ((rows.zipIdx 1).filter fun p => p.1.key = r.key).map
        fun p => (p.1.edge p.2).stored := by
      rw [zipIdx_filter_eq_singleton hkeys hi]
      rfl
    rw [hedges, List.filter_map, hone]
    congr 1
    apply List.filter_congr
    intro p hp
    have hchild := (mem_fkRows_spec (hrows ▸ hmem p hp)).1
    obtain ⟨hne, -, -, hname⟩ := (hnamed p.1 (hmem p hp)).1
    have hstored : (p.1.edge p.2).stored.fkConstraintName = p.1.key.2.2 := by
      show stripNul (p.1.edge p.2).fkConstraintName = _
      rw [fkConstraintName_eq, if_neg hne, stripNul_eq_iff.mpr hname]
    rw [Function.comp_apply, decide_eq_decide, hstored]
    constructor
    · rintro ⟨hoid, he⟩
      have htable := oidByTable_injective hoid hchild
      exact Prod.ext (congrArg Prod.fst htable).symm
        (Prod.ext (congrArg Prod.snd htable).symm he)
    · rintro he
      exact ⟨he ▸ hchild, congrArg (fun key => key.2.2) he⟩
  refine ⟨?_, ?_⟩
  · refine ⟨(r.constraint pos i).stored, ?_, ?_⟩
    · rw [constraints_of_key hcons (fun q hq => (hnamed q hq).1),
        zipIdx_filter_eq_singleton hkeys hi]
      rfl
    · rw [constraintRows_eq_singleton hkeys hr, foreignKeyDef_singleton r pos i]
      exact stripNul_eq_iff.mpr ((nul_not_mem_def_iff r pos i).mpr (hnamed r hr).2)
  · refine ⟨100000 + i, ?_, ?_⟩
    · rw [hedgesOf, constraintRows_eq_singleton hkeys hr]
      obtain ⟨-, hcolumn, hparentColumn, -, -⟩ := hnamed r hr
      have hstored : ((r.edge i).stored.fkConstraintOid, (r.edge i).stored.childColumnName,
          (r.edge i).stored.parentColumnName) = (100000 + i, r.columns) :=
        Prod.ext rfl (Prod.ext (stripNul_eq_iff.mpr hcolumn) (stripNul_eq_iff.mpr hparentColumn))
      rw [List.map_singleton, List.map_singleton, hstored]
    · intro edge hedge hoid
      rw [hedges] at hedge
      obtain ⟨⟨q, j⟩, hq, rfl⟩ := List.mem_map.mp hedge
      obtain rfl : j = i := Nat.add_left_cancel hoid
      have hrq : q = r := by
        obtain ⟨-, -, hqget⟩ := List.mem_zipIdx hq
        obtain ⟨-, -, hrget⟩ := List.mem_zipIdx hi
        rw [hqget, hrget]
      rw [hrq, hedgesOf]
      exact List.mem_singleton_self _

/-- Where every constraint comes out as one, every row is a constraint of its own. -/
theorem named_of_regrouped
    (hcons : s.constraints.filter (fun con => con.constraintType = "f".toList) =
      (rows.zipIdx 1).map fun r => (r.1.constraint pos r.2).stored)
    (h : ∀ r ∈ rows, Regrouped (oidByTable tables) rows s r.key) :
    (rows.map FkRow.key).Nodup ∧ ∀ r ∈ rows, r.Named := by
  -- the constraint of a key is stored for some row
  have hstored : ∀ r ∈ rows, ∃ q ∈ rows, ∃ i, (q.constraint pos i).stored.key = r.key := by
    intro r hr
    obtain ⟨con, hfilter, -⟩ := (h r hr).constraint
    have hm := List.mem_filter.mp (hfilter ▸ List.mem_singleton_self con)
    obtain ⟨htype, hkey⟩ := of_decide_eq_true hm.2
    have hcon : con ∈ s.constraints.filter (fun con => con.constraintType = "f".toList) :=
      List.mem_filter.mpr ⟨hm.1, decide_eq_true htype⟩
    rw [hcons] at hcon
    obtain ⟨p, hp, rfl⟩ := List.mem_map.mp hcon
    exact ⟨p.1, List.fst_mem_of_mem_zipIdx hp, p.2, hkey⟩
  have hnul : ∀ r ∈ rows, '\x00' ∉ r.key.1 ∧ '\x00' ∉ r.key.2.1 ∧ '\x00' ∉ r.key.2.2 := by
    intro r hr
    obtain ⟨q, -, i, hkey⟩ := hstored r hr
    rw [← hkey]
    exact ⟨nul_not_mem_stripNul _, nul_not_mem_stripNul _, nul_not_mem_stripNul _⟩
  have hkeyNamed : ∀ r ∈ rows, r.KeyNamed := by
    intro r hr
    refine ⟨?_, hnul r hr⟩
    obtain ⟨q, hq, i, hkey⟩ := hstored r hr
    rw [← hkey]
    exact stripNul_fkConstraintName_ne_nil (hnul q hq).2.2 i
  have hkeys : (rows.map FkRow.key).Nodup := by
    rw [List.nodup_iff_count_le_one]
    intro key
    by_cases hm : key ∈ rows.map FkRow.key
    · obtain ⟨r, hr, rfl⟩ := List.mem_map.mp hm
      obtain ⟨con, hfilter, -⟩ := (h r hr).constraint
      rw [constraints_of_key hcons hkeyNamed] at hfilter
      have hlength := congrArg List.length hfilter
      rw [List.length_map, List.length_singleton] at hlength
      rw [← map_key_zipIdx, List.count, List.countP_map, List.countP_eq_length_filter]
      refine le_of_eq (Eq.trans ?_ hlength)
      congr 1
      apply List.filter_congr
      intro p _
      rw [Function.comp_apply, Bool.eq_iff_iff]
      simp
    · rw [List.count_eq_zero.mpr hm]
      exact Nat.zero_le 1
  refine ⟨hkeys, fun r hr => ⟨hkeyNamed r hr, ?_⟩⟩
  obtain ⟨con, hfilter, hdef⟩ := (h r hr).constraint
  obtain ⟨i, hi⟩ := exists_mem_zipIdx hr
  rw [constraints_of_key hcons hkeyNamed, zipIdx_filter_eq_singleton hkeys hi,
    List.map_singleton, List.singleton_inj] at hfilter
  rw [constraintRows_eq_singleton hkeys hr, foreignKeyDef_singleton r pos i, ← hfilter] at hdef
  rw [← nul_not_mem_def_iff r pos i, ← hdef]
  exact nul_not_mem_stripNul _

end

/-- **When foreign keys come out as one constraint each:** exactly when every row is a
    constraint of its own, which has a name, and no name of the row holds a `NUL`. -/
theorem regrouped_iff (tables : List TableRow) (columns : List ColumnRow)
    (keyUsage : List KeyUsageRow) (indexes : List StatisticsRow) :
    (∃ s, rowsToSnapshot unicode tables columns keyUsage indexes = .ok s ∧
      ∀ r ∈ fkRows (oidByTable tables) keyUsage,
        Regrouped (oidByTable tables) (fkRows (oidByTable tables) keyUsage) s r.key) ↔
      ((fkRows (oidByTable tables) keyUsage).map FkRow.key).Nodup ∧
        ∀ r ∈ fkRows (oidByTable tables) keyUsage, r.Named := by
  obtain ⟨s, hs, hedges, pos, hcons⟩ := rowsToSnapshot_eq_ok unicode tables columns keyUsage indexes
  constructor
  · rintro ⟨s', hs', h⟩
    rw [hs, Except.ok.injEq] at hs'
    subst hs'
    exact named_of_regrouped hcons h
  · rintro ⟨hkeys, hnamed⟩
    exact ⟨s, hs, fun r hr => regrouped_of_named rfl hcons hedges hkeys hnamed hr⟩

/-! ## A constraint on two columns -/

/-- The tables `s.parent` and `s.child`. -/
def pairTables : List TableRow :=
  [⟨"s".toList, "parent".toList, none, none⟩, ⟨"s".toList, "child".toList, none, none⟩]

/-- `FOREIGN KEY (x, y) REFERENCES parent (a, b)` -/
def pairKeyUsage : List KeyUsageRow :=
  [⟨some "fk".toList, "s".toList, "child".toList, "x".toList, some 1, some "s".toList,
      some "parent".toList, some "a".toList⟩,
    ⟨some "fk".toList, "s".toList, "child".toList, "y".toList, some 2, some "s".toList,
      some "parent".toList, some "b".toList⟩]

/-- **A foreign key on two columns comes out as two.** -/
theorem pair_not_regrouped :
    ¬ (∀ (tables : List TableRow) (columns : List ColumnRow) (keyUsage : List KeyUsageRow)
        (indexes : List StatisticsRow),
      ∃ s, rowsToSnapshot asciiUnicode tables columns keyUsage indexes = .ok s ∧
        ∀ r ∈ fkRows (oidByTable tables) keyUsage,
          Regrouped (oidByTable tables) (fkRows (oidByTable tables) keyUsage) s r.key) := by
  intro h
  obtain ⟨s, hs, hregrouped⟩ := h pairTables [] pairKeyUsage []
  obtain ⟨s', hs', -, pos, hcons⟩ := rowsToSnapshot_eq_ok asciiUnicode pairTables [] pairKeyUsage []
  rw [hs, Except.ok.injEq] at hs'
  subst hs'
  have hkeys : ¬ ((fkRows (oidByTable pairTables) pairKeyUsage).map FkRow.key).Nodup := by decide
  exact hkeys (named_of_regrouped hcons hregrouped).1

end PgErdCloud.Mysql
