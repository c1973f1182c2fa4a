/-
  The Prisma export (`exportPrisma` of erd/prisma.ts), and the relations it yields for the graph
  of a snapshot.

  The exporter takes the text of a handle for the name of a column. The handles of a graph
  encode the name, in a text that is longer than what any name is turned into, so no forward
  relation ever has the field of its foreign key.

  `exportPrisma_eq` gives the whole text, and `relationsPair_iff` says of every snapshot that
  relations pair up exactly when it has no foreign key on a single column.
-/
import PgErdCloud.Canvas.Graph

namespace PgErdCloud.Canvas

open Lib Lib.PyStr

/-! ## Names and types -/

/-- `sanitizeName`: what is no word character becomes an underscore, and a name begins with a
    letter. -/
def sanitizeName (name : Str) : Str :=
  let sanitized := JsStr.replaceOthers JsStr.isWordChar '_' name
  if sanitized.head?.any Char.isAlpha then sanitized else "M_".toList ++ sanitized

/-- The first of the lists that has a part of the type in lower case. Outside of ASCII only the
    Kelvin sign and the dotted capital I have ASCII letters in their lower case, a `k` and an `i`
    before a combining dot, and these complete none of the parts. -/
def mapToPrismaType (pgType : Str) : Str :=
  let t := pgType.map Char.toLower
  let includes (parts : List String) : Bool := parts.any fun part => contains part.toList t
  if includes ["int", "serial"] then "Int".toList
  else if includes ["char", "text", "uuid"] then "String".toList
  else if includes ["bool"] then "Boolean".toList
  else if includes ["time", "date"] then "DateTime".toList
  else if includes ["float", "double", "numeric", "real", "decimal"] then "Float".toList
  else if includes ["json"] then "Json".toList
  else if includes ["bytea"] then "Bytes".toList
  else "String".toList

theorem length_sanitizeName_le (name : Str) : (sanitizeName name).length ≤ 2 * name.length + 2 := by
  have hlen := JsStr.length_replaceOthers_le JsStr.isWordChar '_' name
  have htwo : "M_".toList.length = 2 := rfl
  unfold sanitizeName
  dsimp only
  split_ifs
  · omega
  · rw [List.length_append]
    omega

theorem length_le_sanitizeName (name : Str) : name.length ≤ (sanitizeName name).length := by
  have hlen := JsStr.length_le_replaceOthers JsStr.isWordChar '_' name
  unfold sanitizeName
  dsimp only
  split_ifs
  · exact hlen
  · rw [List.length_append]
    omega

/-! ## Edges -/

/-- An entry of `edgesProcessed`; its lists of fields have one element each. -/
structure EdgeInfo where
  sourceModel : Str
  targetModel : Str
  sourceField : Str
  targetField : Str
  relationName : Str
  deriving DecidableEq

/-- An entry of `incomingRelationsByNode`: what refers to a model. -/
structure IncomingRelation where
  relationName : Str
  sourceModel : Str
  sourceField : Str
  isUnique : Bool
  deriving DecidableEq

/-- `handle.slice(4)`, when the handle begins with `start`. -/
def handleText (start : Str) (handle : Option Str) : Option Str :=
  handle.bind fun text => if startsWith text start then some (text.drop 4) else none

/-- The name of a relation: the label of the edge, or else both titles. -/
def relationNameOf (edge : Edge) (sourceNode targetNode : TableNode) : Str :=
  sanitizeName (JsStr.orElse (edge.label.getD [])
    (sourceNode.title ++ "_".toList ++ targetNode.title))

/-- What the first loop records of an edge. -/
def processEdge (nodes : List TableNode) (edge : Edge) : Option (EdgeInfo × IncomingRelation) :=
  match nodeById nodes edge.source, nodeById nodes edge.target with
  | some sourceNode, some targetNode =>
      let sourceField := (handleText "src-".toList edge.sourceHandle).getD []
      let targetField := (handleText "tgt-".toList edge.targetHandle).getD "id".toList
      let isUnique :=
        (sourceNode.columns.find? fun c => c.columnName = sourceField).any Column.isPk
      if sourceField = [] then none
      else some
        ({ sourceModel := sanitizeName sourceNode.title
           targetModel := sanitizeName targetNode.title
           sourceField := sanitizeName sourceField
           targetField := sanitizeName targetField
           relationName := relationNameOf edge sourceNode targetNode },
         { relationName := relationNameOf edge sourceNode targetNode
           sourceModel := sanitizeName sourceNode.title
           sourceField := sanitizeName sourceField
           isUnique := isUnique })
  | _, _ => none

/-- `edgesProcessed`: what the loop records of the edges under their ids. -/
def edgesProcessed (nodes : List TableNode) (edges : List Edge) : Dict Str EdgeInfo :=
  edges.foldl (fun processed edge =>
    match processEdge nodes edge with
    | some (info, _) => processed.set edge.id info
    | none => processed) .empty

/-- `incomingRelationsByNode.get(node.id) || []` -/
def incomingRelations (nodes : List TableNode) (edges : List Edge) (id : Str) :
    List IncomingRelation :=
  (edges.filter fun edge => edge.target = id).filterMap fun edge =>
    (processEdge nodes edge).map Prod.snd

/-! ## Models -/

/-- A field with `@relation(name, fields: [field], references: [reference])`. -/
structure Relation where
  relationField : Str
  targetModel : Str
  isOptional : Bool
  relationName : Str
  field : Str
  reference : Str
  deriving DecidableEq

/-- The field of a column, with the relation that stands behind it. -/
structure ScalarField where
  fieldName : Str
  prismaType : Str
  isOptional : Bool
  attributes : Str
  relation : Option Relation
  deriving DecidableEq

/-- A model that stands for a table. -/
structure Model where
  name : Str
  scalars : List ScalarField
  /-- The back-relations: list fields, except the unique ones. -/
  incoming : List IncomingRelation
  deriving DecidableEq

/-- What stands behind the type of a column. -/
def columnAttributes (col : Column) : Str :=
  let type := col.dataType.map Char.toLower
  let prismaType := mapToPrismaType col.dataType
  if col.isPk then
    " @id".toList ++
      if prismaType = "Int".toList ∧ contains "serial".toList type then
        " @default(autoincrement())".toList
      else if prismaType = "String".toList ∧ contains "uuid".toList type then
        " @default(uuid())".toList
      else []
  else if col.columnName = "email".toList then " @unique".toList
  else []

/-- The relation of a column: the last edge that has its model and its field. -/
def columnRelation (processed : Dict Str EdgeInfo) (modelName : Str) (col : Column) :
    Option Relation :=
  let fieldName := sanitizeName col.columnName
  (processed.values.filter fun info =>
    info.sourceModel = modelName && info.sourceField = fieldName).getLast?.map fun info =>
      { relationField := sanitizeName info.targetModel ++ "_".toList ++ fieldName
        targetModel := info.targetModel
        isOptional := !col.isNotNull
        relationName := info.relationName
        field := fieldName
        reference := info.targetField }

/-- The model of a node. -/
def prismaModel (nodes : List TableNode) (edges : List Edge) (node : TableNode) : Model :=
  let modelName := sanitizeName node.title
  { name := modelName
    scalars := node.columns.map fun col =>
      { fieldName := sanitizeName col.columnName
        prismaType := mapToPrismaType col.dataType
        isOptional := !col.isNotNull
        attributes := columnAttributes col
        relation := columnRelation (edgesProcessed nodes edges) modelName col }
    incoming := incomingRelations nodes edges node.id }

/-- The models of the graph. -/
def prismaModels (graph : Graph) : List Model :=
  graph.nodes.map (prismaModel graph.nodes graph.edges)

/-! ## Text -/

/-- The question mark of a field that may be missing. -/
def optionalMark (isOptional : Bool) : Str := if isOptional then "?".toList else []

/-- The line of a relation, behind the one of its column. -/
def Relation.text (r : Relation) : Str :=
  "\n  ".toList ++ r.relationField ++ " ".toList ++ r.targetModel ++ optionalMark r.isOptional ++
    " @relation(\"".toList ++ r.relationName ++ "\", fields: [".toList ++ r.field ++
    "], references: [".toList ++ r.reference ++ "])".toList

/-- The line of a column. -/
def ScalarField.text (f : ScalarField) : Str :=
  "  ".toList ++ f.fieldName ++ " ".toList ++ f.prismaType ++ optionalMark f.isOptional ++
    f.attributes ++ f.relation.elim [] Relation.text ++ "\n".toList

/-- The line of a back-relation. -/
def IncomingRelation.text (inc : IncomingRelation) : Str :=
  "  ".toList ++ inc.sourceModel ++ "_".toList ++ inc.sourceField ++ " ".toList ++
    inc.sourceModel ++ (if inc.isUnique then "?".toList else "[]".toList) ++
    " @relation(\"".toList ++ inc.relationName ++ "\")\n".toList

/-- The lines of a model. -/
def Model.text (model : Model) : Str :=
  "model ".toList ++ model.name ++ " \x7b\n".toList ++ model.scalars.flatMap ScalarField.text ++
    model.incoming.flatMap IncomingRelation.text ++ "\x7d\n\n".toList

/-- What the file begins with. -/
def prismaHeader : Str :=
  ("// Prisma schema generated from ERD\ngenerator client \x7b\n" ++
    "  provider = \"prisma-client-js\"\n\x7d\n\ndatasource db \x7b\n" ++
    "  provider = \"postgresql\"\n  url      = env(\"DATABASE_URL\")\n\x7d\n\n").toList

/-- `exportPrisma` -/
def exportPrisma (graph : Graph) : Str :=
  if graph.nodes = [] then "// No tables to export\n".toList
  else JsStr.trim (prismaHeader ++ (prismaModels graph).flatMap Model.text) ++ "\n".toList

/-- The text of a model without its end. -/
def Model.body (model : Model) : Str :=
  "model ".toList ++ model.name ++ " \x7b\n".toList ++ model.scalars.flatMap ScalarField.text ++
    model.incoming.flatMap IncomingRelation.text

theorem exists_text_end {models : List Model} (h : models ≠ []) :
    ∃ stem, prismaHeader ++ models.flatMap Model.text =
      '/' :: (stem ++ "\x7d".toList) ++ "\n\n".toList := by
  obtain ⟨rest, model, rfl⟩ := (List.eq_nil_or_concat' models).resolve_left h
  have hheader : prismaHeader = '/' :: prismaHeader.drop 1 := by decide +kernel
  have htext : model.text = model.body ++ ("\x7d".toList ++ "\n\n".toList) := rfl
  refine ⟨prismaHeader.drop 1 ++ rest.flatMap Model.text ++ model.body, ?_⟩
  rw [List.flatMap_append, List.flatMap_singleton, htext, hheader]
  simp only [List.append_assoc, List.cons_append, List.drop_succ_cons, List.drop_zero]

/-- **The text of the export** is the header and the models, with their fields and relations in
    the order of the graph; one of the line breaks at its end is dropped. -/
theorem exportPrisma_eq {graph : Graph} (h : graph.nodes ≠ []) :
    exportPrisma graph ++ "\n".toList =
      prismaHeader ++ (prismaModels graph).flatMap Model.text := by
  have hmodels : prismaModels graph ≠ [] := fun hnil => h (List.map_eq_nil_iff.mp hnil)
  obtain ⟨stem, hstem⟩ := exists_text_end hmodels
  have htrim : JsStr.trim ('/' :: (stem ++ "\x7d".toList) ++ "\n\n".toList) =
      '/' :: (stem ++ "\x7d".toList) := by
    refine JsStr.trim_append_of_ends (List.cons_ne_nil _ _) ?_ ?_ ?_
    · intro ch hch
      rw [← Option.some.inj hch]
      rfl
    · intro ch hch
      rw [← List.cons_append, List.getLast?_append_of_ne_nil _ (by decide)] at hch
      rw [← Option.some.inj hch]
      rfl
    · intro ch hch
      rcases List.mem_cons.mp hch with rfl | hch
      · rfl
      · rw [List.mem_singleton.mp hch]
        rfl
  rw [exportPrisma, if_neg h, hstem, htrim, List.append_assoc]
  rfl

/-! ## The relations of a snapshot -/

/-- The forward relation fields of a model. -/
def Model.relations (model : Model) : List Relation := model.scalars.filterMap ScalarField.relation

/-- The forward fields of the models with that name that have the name of the relation. -/
def forwardFields (models : List Model) (modelName relationName : Str) : List Relation :=
  ((models.filter fun model => model.name = modelName).flatMap Model.relations).filter
    fun r => r.relationName = relationName

/-- Single-column foreign keys have their forward fields, and back-relation lists have one
    forward field each. -/
structure RelationsPair (snapshot : SnapshotJson) : Prop where
  forward : ∀ row, SingleColumn snapshot row →
    ∃ model ∈ prismaModels (snapshotToGraph snapshot), ∃ r ∈ model.relations,
      r.field = sanitizeName row.childColumnName ∧ r.reference = sanitizeName row.parentColumnName
  backward : ∀ model ∈ prismaModels (snapshotToGraph snapshot), ∀ inc ∈ model.incoming,
    inc.isUnique = false →
      (forwardFields (prismaModels (snapshotToGraph snapshot)) inc.sourceModel
        inc.relationName).length = 1

/-- Only single-column foreign keys have a source handle. -/
theorem singleColumn_of_sourceHandle {snapshot : SnapshotJson} {edge : Edge} {handle : Str}
    (hedge : edge ∈ (snapshotToGraph snapshot).edges) (hhandle : edge.sourceHandle = some handle) :
    ∃ row, SingleColumn snapshot row ∧ handle = sourceColumnHandleId row.childColumnName := by
  change edge ∈ snapshotEdges snapshot at hedge
  by_cases hrows : snapshot.fkEdges = []
  · rw [snapshotEdges, if_neg (not_not.mpr hrows)] at hedge
    obtain ⟨con, -, rfl⟩ := List.mem_map.mp hedge
    exact absurd hhandle (by simp [constraintEdge])
  · obtain ⟨oid, first, rest, hsort, rfl⟩ := (mem_snapshotEdges_iff hrows).mp hedge
    cases rest with
    | cons _ _ => exact absurd hhandle (by simp [foreignKeyEdge])
    | nil =>
        have hperm := (perm_sortRows
          (snapshot.fkEdges.filter fun row => row.fkConstraintOid = oid)).symm
        rw [hsort, List.perm_singleton] at hperm
        have hoid : first.fkConstraintOid = oid := by
          have hm : first ∈ snapshot.fkEdges.filter fun row => row.fkConstraintOid = oid :=
            hperm ▸ List.mem_singleton_self _
          exact of_decide_eq_true (List.mem_filter.mp hm).2
        refine ⟨first, ?_, ?_⟩
        · rw [SingleColumn, hoid]
          exact hperm
        · simpa [foreignKeyEdge] using hhandle.symm

theorem processEdge_eq_some {nodes : List TableNode} {edge : Edge} {info : EdgeInfo}
    {inc : IncomingRelation} (h : processEdge nodes edge = some (info, inc)) :
    ∃ text, handleText "src-".toList edge.sourceHandle = some text ∧
      info.sourceField = sanitizeName text := by
  unfold processEdge at h
  split at h
  · dsimp only at h
    split_ifs at h with hempty
    obtain ⟨rfl, -⟩ := Prod.mk.inj (Option.some.inj h)
    cases htext : handleText "src-".toList edge.sourceHandle with
    | none => exact absurd (by rw [htext]; rfl) hempty
    | some text => exact ⟨text, rfl, rfl⟩
  · exact absurd h (by simp)

theorem exists_edge_of_mem_edgesProcessed {nodes : List TableNode} {edges : List Edge}
    {info : EdgeInfo} (h : info ∈ (edgesProcessed nodes edges).values) :
    ∃ edge ∈ edges, ∃ inc, processEdge nodes edge = some (info, inc) := by
  obtain ⟨⟨id, entry⟩, hitem, hentry⟩ := List.mem_map.mp h
  obtain rfl : entry = info := hentry
  have hget := Dict.mem_items_iff.mp hitem
  clear h hitem
  unfold edgesProcessed at hget
  induction edges using List.reverseRecOn with
  | nil => exact absurd hget (by simp)
  | append_singleton edges edge ih =>
      rw [List.foldl_append, List.foldl_cons, List.foldl_nil] at hget
      have hrest : (edgesProcessed nodes edges).get? id = some entry →
          ∃ edge' ∈ edges ++ [edge], ∃ inc, processEdge nodes edge' = some (entry, inc) := by
        intro hget
        obtain ⟨edge', hm, hp⟩ := ih hget
        exact ⟨edge', List.mem_append_left _ hm, hp⟩
      cases hp : processEdge nodes edge with
      | none =>
          rw [hp] at hget
          exact hrest hget
      | some processed =>
          rw [hp] at hget
          dsimp only at hget
          rw [Dict.get?_set] at hget
          split_ifs at hget
          · obtain rfl := Option.some.inj hget
            exact ⟨edge, by simp, processed.2, hp⟩
          · exact hrest hget

/-- A forward field is the text of a handle. -/
theorem relation_field_of_mem {graph : Graph} {model : Model} {r : Relation}
    (hmodel : model ∈ prismaModels graph) (hr : r ∈ model.relations) :
    ∃ edge ∈ graph.edges, ∃ text, handleText "src-".toList edge.sourceHandle = some text ∧
      r.field = sanitizeName text := by
  obtain ⟨node, -, rfl⟩ := List.mem_map.mp hmodel
  obtain ⟨scalar, hscalar, hrelation⟩ := List.mem_filterMap.mp hr
  obtain ⟨col, -, rfl⟩ := List.mem_map.mp hscalar
  change columnRelation _ _ col = some r at hrelation
  rw [columnRelation, Option.map_eq_some_iff] at hrelation
  obtain ⟨info, hlast, rfl⟩ := hrelation
  obtain ⟨hinfo, hfits⟩ := List.mem_filter.mp (List.mem_of_getLast? hlast)
  obtain ⟨edge, hedge, inc, hp⟩ := exists_edge_of_mem_edgesProcessed hinfo
  obtain ⟨text, htext, hfield⟩ := processEdge_eq_some hp
  refine ⟨edge, hedge, text, htext, ?_⟩
  have hsame : info.sourceField = sanitizeName col.columnName := by
    simpa using (Bool.and_eq_true_iff.mp hfits).2
  exact hsame.symm.trans hfield

/-- In the graph of a snapshot that text encodes the column of another foreign key, so it is
    longer than the name of that column. -/
theorem exists_shorter_row {snapshot : SnapshotJson} {model : Model} {r : Relation}
    (hmodel : model ∈ prismaModels (snapshotToGraph snapshot)) (hr : r ∈ model.relations) :
    ∃ row, SingleColumn snapshot row ∧
      (sanitizeName row.childColumnName).length < r.field.length := by
  obtain ⟨edge, hedge, text, htext, hfield⟩ := relation_field_of_mem hmodel hr
  rw [handleText, Option.bind_eq_some_iff] at htext
  obtain ⟨handle, hhandle, htext⟩ := htext
  obtain ⟨row, hrow, rfl⟩ := singleColumn_of_sourceHandle hedge hhandle
  split_ifs at htext
  have htext' : text = sanitizeHandleId row.childColumnName := (Option.some.inj htext).symm
  refine ⟨row, hrow, ?_⟩
  have hname := length_sanitizeName_le row.childColumnName
  have hhandleLength := length_lt_sanitizeHandleId row.childColumnName
  have htextLength := length_le_sanitizeName text
  rw [hfield]
  rw [htext'] at htextLength ⊢
  omega

/-- The foreign key with the shortest field has no forward relation. -/
theorem not_singleColumn_of_forward {snapshot : SnapshotJson} (h : RelationsPair snapshot)
    (n : Nat) : ∀ row, SingleColumn snapshot row →
      (sanitizeName row.childColumnName).length ≠ n := by
  induction n using Nat.strong_induction_on with
  | _ n ih =>
      intro row hrow hlen
      obtain ⟨model, hmodel, r, hr, hfield, -⟩ := h.forward row hrow
      obtain ⟨shorter, hshorter, hlt⟩ := exists_shorter_row hmodel hr
      rw [hfield, hlen] at hlt
      exact ih _ hlt shorter hshorter rfl

/-- **The relations pair up exactly for the snapshots without single-column foreign keys.** -/
theorem relationsPair_iff (snapshot : SnapshotJson) :
    RelationsPair snapshot ↔ ∀ row, ¬ SingleColumn snapshot row := by
  constructor
  · intro h row hrow
    exact not_singleColumn_of_forward h _ row hrow rfl
  · intro hnone
    refine ⟨fun row hrow => absurd hrow (hnone row), fun model hmodel inc hinc _ => ?_⟩
    obtain ⟨node, -, rfl⟩ := List.mem_map.mp hmodel
    obtain ⟨edge, hedge, hp⟩ := List.mem_filterMap.mp hinc
    obtain ⟨⟨info, inc⟩, hp, -⟩ := Option.map_eq_some_iff.mp hp
    obtain ⟨text, htext, -⟩ := processEdge_eq_some hp
    rw [handleText, Option.bind_eq_some_iff] at htext
    obtain ⟨handle, hhandle, -⟩ := htext
    obtain ⟨row, hrow, -⟩ :=
      singleColumn_of_sourceHandle (List.mem_filter.mp hedge).1 hhandle
    exact absurd hrow (hnone row)

theorem posts_user_id_has_no_relation : ¬ ∀ snapshot, RelationsPair snapshot := by
  intro hall
  exact (relationsPair_iff postsSnapshot).mp (hall postsSnapshot)
    ⟨3, "posts_user_id_fkey".toList, 2, 1, "user_id".toList, "id".toList, 1⟩ rfl

end PgErdCloud.Canvas
