import TableQuery.Proofs.Action.Deferral
import TableQuery.Proofs.PrimaryKey.Writing

namespace TableQuery

def Value.hasId (key row : Value) : Bool := row.id?.any fun id => id.strictEquals key

variable {c : Context} {s : State} {name : String} {rows live : List Value} {key row : Value}
  {admits : Value → Prop}

theorem Context.expectType_eq {type : TypeTag} (h : c.type = type) :
    c.expectType type = .ok () := if_pos h

namespace Selection

/-- The key is checked first. If it is legal it is bound, and so is the position of the row that was
found. -/
theorem runFrom_get (htype : c.type = .table) (rows : List Value) (key : Value) :
    (get (.array rows) (.datum key)).runFrom c = match checkKey true key with
      | .error e => (.error e, c)
      | .ok _ => (.ok ((rows.find? (Value.hasId key)).getD .null), { c with binding :=
          { c.binding with rowIndex := rows.findIdx? (Value.hasId key), rowId := some key } }) := by
  have hfound : (keyPosition key rows).bind (fun i => rows[i]?) = rows.find? (Value.hasId key) :=
    List.find?_eq_bind_findIdx?_getElem?.symm
  have hresolve : (Act.resolve (.datum key)).runFrom c = (.ok key, c) := rfl
  unfold get
  rw [Act.runFrom_bind, Act.runFrom_ask, Context.expectType_eq htype]
  dsimp only
  rw [if_neg Bool.false_ne_true, Act.runFrom_bind, hresolve]
  dsimp only
  rw [Act.runFrom_bind, Act.runFrom_ofExcept, ← hfound]
  rcases checkKey true key with e | _
  · rfl
  · rfl

def getAllKeys (args : List Value) : Except Error (String × List Value) := do
  let (keys, options) := Sequence.splitOptions args
  let index ← indexField options
  checkKeys index keys
  return (index, keys)

/-- `getAll` with arguments that are known. No row is bound. -/
theorem runFrom_getAll (htype : c.type = .table) (rows args : List Value) :
    (getAll (.array rows) (args.map .datum)).runFrom c =
      ((getAllKeys args).map fun found => .array (withKeys found.1 found.2 rows),
        { c with binding := { c.binding with rowIndex := none, rowId := none } }) := by
  have hindex (c : Context) : (Act.setRowIndex none).runFrom c =
      (.ok (), { c with binding := { c.binding with rowIndex := none } }) := rfl
  have hid (c : Context) : (Act.setRowId none).runFrom c =
      (.ok (), { c with binding := { c.binding with rowId := none } }) := rfl
  unfold getAll getAllKeys
  rw [Act.runFrom_bind, Act.runFrom_ask, Context.expectType_eq htype]
  dsimp only
  rw [Act.runFrom_bind, hindex]
  dsimp only
  rw [Act.runFrom_bind, hid]
  dsimp only
  rw [Act.resolveAll_datums, pure_bind]
  rcases Sequence.splitOptions args with ⟨keys, options⟩
  dsimp only
  rw [Act.runFrom_bind, Act.runFrom_ofExcept]
  rcases indexField options with e | index
  · rfl
  dsimp only
  rw [Act.runFrom_bind, Act.runFrom_ofExcept]
  change _ = ((do
    checkKeys index keys
    return (index, keys) : Except Error (String × List Value)).map _, _)
  rcases checkKeys index keys with e | _ <;> rfl

/-- One legal key is looked for in the primary keys. -/
theorem getAllKeys_singleton (hkey : key.isValidKey = true) :
    getAllKeys [key] = .ok (primaryKey, [key]) := by
  -- a legal key is no options object and not `null`
  cases key <;> first | rfl | cases hkey

end Selection

namespace Term

theorem evaluate_table (hlive : s.store.rows? name = some live) :
    ((table name).evaluate none).runFrom s = (.ok (.ofTable name live), s) := by
  have hrows : (Eval.rows name).runFrom s = (.ok live, s) := by
    rw [runFrom_rows, Store.rows_eq_ok.mpr hlive]
  rw [evaluate, evaluateIn, Eval.runFrom_bind, hrows]
  rfl

theorem mapM_argumentIn_datums (vs : List Value) (s : State) :
    ((vs.map .datum).mapM fun t : Term => t.argumentIn .builtin none).runFrom s =
      (.ok (vs.map .datum), s) := by
  induction vs with
  | nil => rfl
  | cons v rest ih =>
    have hfirst : ((datum v).argumentIn .builtin none).runFrom s = (.ok (.datum v), s) := rfl
    rw [List.map_cons, List.mapM_cons, Eval.runFrom_bind, hfirst]
    dsimp only
    rw [Eval.runFrom_bind, ih]
    rfl

/-- A table and values are at hand for a call. -/
theorem prepared_datums (hlive : s.store.rows? name = some live) (vs : List Value) :
    Prepared s (table name) (vs.map datum) (.ofTable name live) (vs.map .datum) :=
  ⟨evaluate_table hlive, mapM_argumentIn_datums vs s⟩

theorem prepared_table (hlive : s.store.rows? name = some live) (v : Value) :
    Prepared s (table name) [datum v] (.ofTable name live) [.datum v] :=
  prepared_datums hlive [v]

/-- `get` on a table checks the key before it looks at the rows. -/
theorem evaluate_get_datum (hlive : s.store.rows? name = some live) (key : Value) :
    ((call "get" (table name) [datum key]).evaluate none).runFrom s =
      ((Selection.checkKey true key).map fun _ => ⟨(live.find? (Value.hasId key)).getD .null,
        .selection, ⟨some name, live.findIdx? (Value.hasId key), some key⟩⟩, s) := by
  have hinvoke (c : Context) :
      (Registry.builtin.invoke "get" (.array live) [.datum key]).runFrom c =
        (Selection.get (.array live) (.datum key)).runFrom c := rfl
  have hd : Registry.builtin.describe "get" = .ok ⟨.one, .selection, .unary Selection.get⟩ := rfl
  have htype : (⟨.table, { table := some name }, s⟩ : Context).type = .table := rfl
  rw [(prepared_table hlive key).evaluate_call hd, Registry.runFrom_apply]
  dsimp only [Evaluated.ofTable]
  rw [hinvoke, Selection.runFrom_get htype]
  rcases Selection.checkKey true key with e | _
  · rfl
  · rfl

/-- `get` with a legal key gives the first row that has the key, or `null`. -/
theorem evaluate_get (hlive : s.store.rows? name = some live) (hkey : key.isValidKey = true) :
    ((call "get" (table name) [datum key]).evaluate none).runFrom s =
      (.ok ⟨(live.find? (Value.hasId key)).getD .null, .selection,
        ⟨some name, live.findIdx? (Value.hasId key), some key⟩⟩, s) := by
  have hlegal : Selection.checkKey true key = .ok () := if_pos hkey
  rw [evaluate_get_datum hlive, hlegal]
  rfl

theorem run_get (hlive : s.store.rows? name = some live) (hkey : key.isValidKey = true) :
    ((call "get" (table name) [datum key]).run none).runFrom s =
      (.ok ((live.find? (Value.hasId key)).getD .null), s) := by
  rw [runFrom_run, evaluate_get hlive hkey]
  rfl

theorem describe_getAll : Registry.builtin.describe "getAll" =
    .ok ⟨.oneOrMore, .selectionArray, .variadic Selection.getAll⟩ := rfl

section GetAll

variable (hlive : s.store.rows? name = some live)

include hlive

/-- `getAll` on a table with arguments that are known. -/
theorem evaluate_getAll_cons (key : Value) (rest : List Value) :
    ((call "getAll" (table name) ((key :: rest).map datum)).evaluate none).runFrom s =
      ((Selection.getAllKeys (key :: rest)).map fun found =>
        ⟨.array (Selection.withKeys found.1 found.2 live), .selectionArray, { table := some name }⟩,
        s) := by
  have hinvoke : Registry.builtin.invoke "getAll" (.array live) ((key :: rest).map .datum) =
      Selection.getAll (.array live) ((key :: rest).map .datum) :=
    Registry.invoke_oneOrMore describe_getAll _ _
  rw [(prepared_datums hlive _).evaluate_call describe_getAll, Registry.runFrom_apply]
  dsimp only [Evaluated.ofTable]
  rw [hinvoke, Selection.runFrom_getAll rfl]
  rcases Selection.getAllKeys (key :: rest) with e | found <;> rfl

/-- `getAll` on a table gives the rows that have the key. -/
theorem evaluate_getAll (hkey : key.isValidKey = true) :
    ((call "getAll" (table name) [datum key]).evaluate none).runFrom s =
      (.ok ⟨.array (Selection.withKeys primaryKey [key] live), .selectionArray,
        { table := some name }⟩, s) := by
  have heval := evaluate_getAll_cons hlive key []
  rw [Selection.getAllKeys_singleton hkey] at heval
  exact heval

end GetAll

end Term

/-- Of items no two of which pass a test, the first that does is the only one. -/
theorem filter_eq_toList_find? {p : Value → Bool} {xs : List Value}
    (h : xs.Pairwise fun a b => ¬(p a = true ∧ p b = true)) :
    xs.filter p = (xs.find? p).toList := by
  induction h with
  | nil => rfl
  | @cons x xs hx _ ih =>
    by_cases hp : p x = true
    · have hnone : xs.filter p = [] :=
        List.filter_eq_nil_iff.mpr fun y hy hpy => hx y hy ⟨hp, hpy⟩
      rw [List.filter_cons_of_pos hp, List.find?_cons_of_pos hp, hnone]
      rfl
    · rw [List.filter_cons_of_neg hp, List.find?_cons_of_neg hp, ih]

/-- Array keys and others are all compared as values. -/
theorem Selection.keyMatches_eq_equals (field key : Value) :
    keyMatches field key = key.equals field := by
  unfold keyMatches
  split
  · rfl
  · exact Value.strictEquals_eq_equals key field

/-- Both ways to compare a key with that of a row tell the same. -/
theorem keyMatches_eq {field : Value} (hkey : key.Distinct) (hfield : field.Distinct) :
    Selection.keyMatches field key = field.strictEquals key := by
  rw [Selection.keyMatches_eq_equals, Value.strictEquals_eq_equals, Value.equals_comm hkey hfield]

/-- `getAll` with one primary key gives the rows that have it. -/
theorem Selection.withKeys_singleton (hkey : key.Distinct) (hrows : ∀ row ∈ live, row.Distinct) :
    withKeys primaryKey [key] live = live.filter (Value.hasId key) := by
  apply List.filter_congr
  intro row hrow
  change ((row.id?).any fun field => [key].any (keyMatches field)) = _
  cases hid : row.id? with
  | none => rw [Value.hasId, hid, Option.any_none, Option.any_none]
  | some id =>
    have hfield := Value.hereditary_distinct.field? (hrows row hrow) hid
    rw [Value.hasId, hid, Option.any_some, Option.any_some, List.any_cons, List.any_nil,
      Bool.or_false, keyMatches_eq hkey hfield]

namespace KeyedBy

/-- At most one row has a key. -/
theorem filter_hasId (h : KeyedBy admits live) (hkey : key.Distinct) :
    live.filter (Value.hasId key) = (live.find? (Value.hasId key)).toList := by
  apply filter_eq_toList_find?
  apply h.apart.imp_of_mem
  rintro a b ha hb hapart ⟨hfirst, hsecond⟩
  obtain ⟨x, hx, -⟩ := (h.isRow a ha).keyed
  obtain ⟨y, hy, -⟩ := (h.isRow b hb).keyed
  rw [Value.hasId, hx, Option.any_some, Value.strictEquals_eq_equals] at hfirst
  rw [Value.hasId, hy, Option.any_some, Value.strictEquals_eq_equals] at hsecond
  have hback := Value.equals_symm ((h.isRow b hb).distinct_id hy) hkey hsecond
  have hsame := Value.equals_trans hfirst hback
  rw [sameRow_of_id hx hy, hsame] at hapart
  cases hapart

/-- `getAll` with one primary key gives the row that `get` gives, if there is one. -/
theorem withKeys_eq (h : KeyedBy admits live) (hkey : key.Distinct) :
    Selection.withKeys primaryKey [key] live = (live.find? (Value.hasId key)).toList := by
  have hrows : ∀ row ∈ live, row.Distinct := fun row hrow => (h.isRow row hrow).distinct
  rw [Selection.withKeys_singleton hkey hrows, h.filter_hasId hkey]

end KeyedBy

end TableQuery
