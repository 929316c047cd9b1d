import EntitySql.Proofs.ScriptText

/-! The rows that an update tells. An update that outputs its rows tells every row that
it changed. An update that is followed by a query under the same condition tells those
of them that the condition still holds for, so that it tells them all exactly when no
row is moved out of the condition that picked it. -/

namespace EntitySql

/-- The filters of a query hold for a row. -/
def Query.holds (catalog : Catalog) (query : Query) (server : Server) (row : TableRow) : Bool :=
  Expr.jointTruth? (.unqualified catalog) server.engine (server.valuation row) query.filters =
    some .yes

theorem Query.picks_eq_holds {catalog : Catalog} {query : Query} {condition : Formula}
    (agrees : condition.Agrees (Expr.jointTruth? (.unqualified catalog) · · query.filters))
    (server : Server) : server.picks condition = query.holds catalog server := by
  funext row
  rcases agrees server.engine (server.valuation row) with ⟨truth, read, same⟩
  simp [Server.picks, Query.holds, read, same]

namespace UpdateStatement

variable {update : UpdateStatement}

theorem Means.picks_eq {catalog : Catalog} {query : Query} {updater : Expr}
    (means : update.Means catalog query updater) (server : Server) :
    server.picks update.condition = query.holds catalog server :=
  Query.picks_eq_holds means.condition server

/-- Rows that the update does not pick are as they were, so its condition still does not
hold for them. -/
theorem filter_run (server : Server) (dialect : Dialect) (rows : List TableRow) :
    (update.run server dialect rows).filter (server.picks update.condition) =
      ((update.picked server rows).map (update.image server dialect)).filter
        (server.picks update.condition) := by
  induction rows with
  | nil => rfl
  | cons row rows induction =>
      simp only [run, picked, List.map_cons, List.filter_cons] at induction ⊢
      cases holds : server.picks update.condition row with
      | true => simp only [if_true, List.map_cons, List.filter_cons, induction]
      | false => simpa [holds] using induction

end UpdateStatement

/-- A list is as long without some of its items only if nothing is left out. -/
theorem perm_map_filter_iff {items : List α} {keep : α → Bool} {shown told : α → β} :
    ((items.filter keep).map shown).Perm (items.map told) ↔
      (∀ item ∈ items, keep item = true) ∧ (items.map shown).Perm (items.map told) := by
  constructor
  · intro same
    have lengths := same.length_eq
    rw [List.length_map, List.length_map] at lengths
    have all := List.length_filter_eq_length_iff.mp lengths
    rw [List.filter_eq_self.mpr all] at same
    exact ⟨all, same⟩
  · rintro ⟨all, same⟩
    rw [List.filter_eq_self.mpr all]
    exact same

namespace UpdateScript

/-- The rows that are told by a query under the condition of the update. -/
theorem rows_followedBy (update : UpdateStatement) (columns : List ShownColumn)
    (server : Server) (dialect : Dialect) (tables : String → List TableRow) :
    rows ⟨{ update with outputs := [] }, some ⟨columns, update.table, update.condition⟩⟩
        server dialect tables =
      (((update.picked server (tables update.table)).map (update.image server dialect)).filter
        (server.picks update.condition)).map (TableRow.shown · columns) := by
  rw [← UpdateStatement.filter_run]
  simp only [rows, SelectStatement.run, updated, if_true]
  rfl

/-- Rows that the update moves out of its condition are missing. -/
theorem perm_rows_iff (update : UpdateStatement) (columns : List ShownColumn)
    (server : Server) (dialect : Dialect) (tables : String → List TableRow)
    (told : TableRow → List (String × Value)) :
    (rows ⟨{ update with outputs := [] }, some ⟨columns, update.table, update.condition⟩⟩
        server dialect tables).Perm
      ((update.picked server (tables update.table)).map told) ↔
      (∀ row ∈ update.picked server (tables update.table),
        server.picks update.condition (update.image server dialect row) = true) ∧
      ((update.picked server (tables update.table)).map fun row =>
        (update.image server dialect row).shown columns).Perm
        ((update.picked server (tables update.table)).map told) := by
  rw [rows_followedBy, List.filter_map, List.map_map, perm_map_filter_iff]
  rfl

end UpdateScript

theorem Dialect.scriptOf_text (dialect : Dialect) {fragment : Fragment}
    (legible : fragment.Legible) (params : Params) :
    dialect.scriptOf ⟨fragment.text dialect.lexical, params⟩ =
      readScript params fragment.squeezed := by
  rw [scriptOf, dialect.readTokens_text legible]
  rfl

/-- Wherever MySQL's statement of an update that tells its rows is composed, so is that of
SQL Server. Both read back as the update that is asked for: MySQL's with a query for the
same columns under the same condition, SQL Server's with the columns as outputs. -/
theorem scripts_updateSelect {catalog : Catalog} {query : Query} {updater : Expr}
    (plain : catalog.PlainProperties) {composition : Composition}
    (composed : ((Operation.updateSelect query updater).compose catalog .mysql).1 =
      .ok composition) :
    ∃ (update : UpdateStatement) (columns : List ShownColumn) (other : Composition),
      update.Means catalog query updater ∧
      query.Tells catalog columns ∧
      ((Operation.updateSelect query updater).compose catalog .sqlServer).1 = .ok other ∧
      Dialect.mysql.scriptOf composition.statement =
        some ⟨{ update with outputs := [] }, some ⟨columns, update.table, update.condition⟩⟩ ∧
      Dialect.sqlServer.scriptOf other.statement =
        some ⟨{ update with outputs := columns }, none⟩ := by
  unfold Operation.compose at composed
  split at composed
  · next built draft run =>
      cases composed
      rcases Query.readScript_buildUpdateSelect plain run with
        ⟨update, columns, means, tells, read, other, otherRun, otherRead⟩
      have legible := (Query.sound_buildUpdateSelect plain .mysql nofun run).1
      have otherLegible := (Query.sound_buildUpdateSelect plain .sqlServer nofun otherRun).1
      refine ⟨update, columns,
        ⟨⟨other.sql.text Dialect.sqlServer.lexical, draft.params⟩, other.joins⟩, means, tells,
        ?_, ?_, ?_⟩
      · simp only [Operation.compose, Operation.build, otherRun]
      · rw [Dialect.scriptOf_text _ legible, read]
      · rw [Dialect.scriptOf_text _ otherLegible, otherRead]
  · cases composed

/-- MySQL tells the rows that the filters matched, as the update leaves them, if and only
if the filters match each of them once more. It tells the rows that SQL Server tells if
and only if, besides, assigning in order leaves them as assigning at once does. -/
theorem updated_rows_told_iff (catalog : Catalog) (query : Query) (updater : Expr)
    (plain : catalog.PlainProperties) {composition : Composition}
    (composed : ((Operation.updateSelect query updater).compose catalog .mysql).1 =
      .ok composition) :
    ∃ (update : UpdateStatement) (columns : List ShownColumn) (other : Composition)
        (script otherScript : UpdateScript),
      update.Means catalog query updater ∧
      query.Tells catalog columns ∧
      ((Operation.updateSelect query updater).compose catalog .sqlServer).1 = .ok other ∧
      Dialect.mysql.scriptOf composition.statement = some script ∧
      Dialect.sqlServer.scriptOf other.statement = some otherScript ∧
      ∀ (server : Server) (tables : String → List TableRow),
        let matched := (tables update.table).filter (query.holds catalog server)
        let images (dialect : Dialect) :=
          matched.map fun row => (update.image server dialect row).shown columns
        let kept := ∀ row ∈ matched,
          query.holds catalog server (update.image server .mysql row) = true
        otherScript.rows server .sqlServer tables = images .sqlServer ∧
        ((script.rows server .mysql tables).Perm (images .mysql) ↔ kept) ∧
        ((script.rows server .mysql tables).Perm (otherScript.rows server .sqlServer tables) ↔
          kept ∧ (images .mysql).Perm (images .sqlServer)) := by
  rcases scripts_updateSelect plain composed with
    ⟨update, columns, other, means, tells, otherComposed, script, otherScript⟩
  refine ⟨update, columns, other, _, _, means, tells, otherComposed, script, otherScript, ?_⟩
  intro server tables matched images kept
  have picked : update.picked server (tables update.table) = matched := by
    rw [UpdateStatement.picked, means.picks_eq]
  have output : UpdateScript.rows ⟨{ update with outputs := columns }, none⟩ server
      .sqlServer tables = images .sqlServer := by
    simp only [images, ← picked]
    rfl
  have told := UpdateScript.perm_rows_iff update columns server .mysql tables
  simp only [picked, means.picks_eq] at told
  refine ⟨output, ?_, ?_⟩
  · rw [told]
    exact and_iff_left (List.Perm.refl _)
  · rw [output]
    exact told _

/-! People who come of age: the update moves each of them out of the filter. -/

/-- A server for tables of whole numbers, which it compares and does nothing else with. -/
def Server.wholeNumbers : Server :=
  { engine :=
      { compare := fun operator left right =>
          match operator, left, right with
          | .equal, .int left, .int right => left = right
          | .less, .int left, .int right => left < right
          | _, _, _ => false
        calculate := fun _ _ _ => .null
        fits := fun _ _ => false
        compare_int := fun _ _ => rfl }
    aggregate := fun _ _ _ => .null }

/-- The row of someone of an age. -/
def TableRow.person (age : Int64) : TableRow := fun column =>
  if column = "Age" then .int age else .int 1

theorem updated_rows_told_minors :
    ∃ (composition other : Composition) (update : UpdateStatement) (columns : List ShownColumn)
        (script otherScript : UpdateScript),
      ((Operation.updateSelect .minors .comeOfAge).compose .people .mysql).1 =
        .ok composition ∧
      ((Operation.updateSelect .minors .comeOfAge).compose .people .sqlServer).1 = .ok other ∧
      Dialect.mysql.scriptOf composition.statement = some script ∧
      Dialect.sqlServer.scriptOf other.statement = some otherScript ∧
      otherScript.rows .wholeNumbers .sqlServer (fun _ => [.person 17, .person 40]) =
        [(update.image .wholeNumbers .sqlServer (.person 17)).shown columns] ∧
      ((script.rows .wholeNumbers .mysql fun _ => [.person 17, .person 40]).Perm
          [(update.image .wholeNumbers .mysql (.person 17)).shown columns] ↔
        Query.minors.holds .people .wholeNumbers
          (update.image .wholeNumbers .mysql (.person 17)) = true) := by
  rcases updated_rows_told_iff .people .minors .comeOfAge plainProperties_people rfl with
    ⟨update, columns, other, script, otherScript, -, -, otherComposed, read, otherRead, rows⟩
  rcases rows .wholeNumbers (fun _ => [.person 17, .person 40]) with ⟨output, told, -⟩
  have matched : [TableRow.person 17, .person 40].filter
      (Query.minors.holds .people .wholeNumbers) = [.person 17] := rfl
  rw [matched] at output told
  refine ⟨_, other, update, columns, script, otherScript, rfl, otherComposed, read, otherRead,
    output, ?_⟩
  simpa using told

/-- The statement that makes people come of age and outputs some columns of theirs. -/
def UpdateStatement.comeOfAge (outputs : List ShownColumn) : UpdateStatement :=
  { table := "people"
    assignments := [("Age", .constant (.int 18))]
    outputs
    condition := .logical .and (.comparison .equal (.constant (.int 1)) (.constant (.int 1)))
      (.comparison .less (.column ⟨none, "Age"⟩) (.constant (.int 18))) }

def ShownColumn.person : List ShownColumn :=
  [⟨"id", "Id"⟩, ⟨"full]name", "Name"⟩, ⟨"Age", "Age"⟩]

/-- Nobody who came of age is told of by MySQL, although SQL Server tells of them. -/
theorem updated_rows_lost :
    ∃ (composition other : Composition) (script otherScript : UpdateScript),
      ((Operation.updateSelect .minors .comeOfAge).compose .people .mysql).1 =
        .ok composition ∧
      ((Operation.updateSelect .minors .comeOfAge).compose .people .sqlServer).1 = .ok other ∧
      Dialect.mysql.scriptOf composition.statement = some script ∧
      Dialect.sqlServer.scriptOf other.statement = some otherScript ∧
      script.rows .wholeNumbers .mysql (fun _ => [.person 17, .person 40]) = [] ∧
      otherScript.rows .wholeNumbers .sqlServer (fun _ => [.person 17, .person 40]) =
        [[("Id", .int 1), ("Name", .int 1), ("Age", .int 18)]] := by
  -- Evaluating the reader on the text is slow. The text reads as its tokens anyhow, so
  -- that only the tokens need to be evaluated.
  have rerun : (Query.minors.buildUpdateSelect .people .mysql .comeOfAge).runFrom {} =
      (.ok _, _) := rfl
  have output : (Query.minors.buildUpdateSelect .people .sqlServer .comeOfAge).runFrom {} =
      (.ok _, _) := rfl
  have legible := (Query.sound_buildUpdateSelect plainProperties_people .mysql nofun rerun).1
  have otherLegible :=
    (Query.sound_buildUpdateSelect plainProperties_people .sqlServer nofun output).1
  let update := UpdateStatement.comeOfAge []
  refine ⟨_, _, ⟨update, some ⟨ShownColumn.person, update.table, update.condition⟩⟩,
    ⟨.comeOfAge ShownColumn.person, none⟩, rfl, rfl, ?_, ?_, ?_, ?_⟩
  · exact (Dialect.scriptOf_text .mysql legible _).trans (by decide +kernel)
  · exact (Dialect.scriptOf_text .sqlServer otherLegible _).trans (by decide +kernel)
  · decide
  · decide

end EntitySql
