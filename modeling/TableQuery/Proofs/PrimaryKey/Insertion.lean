import TableQuery.Proofs.PrimaryKey.Lookup
import TableQuery.Proofs.PrimaryKey.Runs

namespace TableQuery

theorem Report.field?_firstError (r : Report) :
    r.toValue.field? "first_error" = r.firstError.map .string := by
  simp [toValue, Value.field?, Fields.get?_append, Fields.get?_toList]

theorem Report.field?_generatedKeys (r : Report) :
    r.toValue.field? "generated_keys" =
      r.generatedKeys.map fun keys => .array (keys.map .string) := by
  simp [toValue, Value.field?, Fields.get?_append, Fields.get?_toList]

namespace Mutation

open Act

inductive Fate where
  | kept (row : Fields)
  | keyed (row : Fields) (key : String)
  | refused

namespace Fate

def row? : Fate → Option Value
  | kept row => some (.object row)
  | keyed row key => some (.object (row ++ [(primaryKey, .string key)]))
  | refused => none

def key? : Fate → Option String
  | keyed _ key => some key
  | _ => none

def isRefused (fate : Fate) : Bool := fate.row?.isNone

end Fate

def accepted (fates : List Fate) : List Value := fates.filterMap Fate.row?

def drawnKeys (fates : List Fate) : List String := fates.filterMap Fate.key?

def refusals (fates : List Fate) : Nat := fates.countP Fate.isRefused

def Taken (key : Value) (rows : List Value) : Prop :=
  ∃ row ∈ rows, ∃ id, row.id? = some id ∧ id.strictEquals key = true

inductive Decides (rows : List Value) (row : Fields) : Fate → Prop
  | kept {id : Value} (hid : Fields.get? primaryKey row = some id) (hfree : ¬Taken id rows) :
    Decides rows row (.kept row)
  | keyed {key : String} (hid : Fields.get? primaryKey row = none)
    (hfree : ¬Taken (.string key) rows) : Decides rows row (.keyed row key)
  | refused {id : Value} (hid : Fields.get? primaryKey row = some id) (htaken : Taken id rows) :
    Decides rows row .refused

/-- The fates of the rows of a batch, one after the other, in a table with the given rows. -/
inductive Batch : List Value → List Fields → List Fate → Prop
  | nil {rows : List Value} : Batch rows [] []
  | cons {rows : List Value} {row : Fields} {fate : Fate} {batch : List Fields}
    {fates : List Fate} (hfirst : Decides rows row fate)
    (hrest : Batch (rows ++ fate.row?.toList) batch fates) :
    Batch rows (row :: batch) (fate :: fates)

def batchReport (fates : List Fate) : Report where
  errors := some (refusals fates)
  inserted := some (accepted fates).length
  firstError := if 0 < refusals fates then some duplicateKey else none
  generatedKeys := if drawnKeys fates = [] then none else some (drawnKeys fates)

structure ReportsBatch (fates : List Fate) (report : Value) : Prop where
  errors : report.field? "errors" = some (.number (.int (refusals fates)))
  inserted : report.field? "inserted" = some (.number (.int (accepted fates).length))
  firstError : report.field? "first_error" =
    if 0 < refusals fates then some (.string duplicateKey) else none
  generatedKeys : report.field? "generated_keys" =
    if drawnKeys fates = [] then none else some (.array ((drawnKeys fates).map .string))

section

variable {rows : List Value} {row : Fields} {batch : List Fields} {fate : Fate}
  {fates : List Fate}

theorem reportsBatch (fates : List Fate) : ReportsBatch fates (batchReport fates).toValue where
  errors := rfl
  inserted := rfl
  firstError := by
    rw [Report.field?_firstError]
    dsimp only [batchReport]
    split <;> rfl
  generatedKeys := by
    rw [Report.field?_generatedKeys]
    dsimp only [batchReport]
    split <;> rfl

theorem hasKey_iff {key : Value} : hasKey key rows = true ↔ Taken key rows := by
  unfold hasKey Taken
  rw [List.any_eq_true]
  apply exists_congr
  intro row
  apply and_congr_right
  intro _
  cases row.id? <;> simp

theorem accepted_cons (fate : Fate) (fates : List Fate) :
    accepted (fate :: fates) = fate.row?.toList ++ accepted fates := by
  cases fate <;> rfl

theorem drawnKeys_cons (fate : Fate) (fates : List Fate) :
    drawnKeys (fate :: fates) = fate.key?.toList ++ drawnKeys fates := by
  cases fate <;> rfl

theorem refusals_cons (fate : Fate) (fates : List Fate) :
    refusals (fate :: fates) = (if fate.isRefused then 1 else 0) + refusals fates := by
  rw [refusals, List.countP_cons, Nat.add_comm]
  rfl

theorem Batch.length_eq (h : Batch rows batch fates) : fates.length = batch.length := by
  induction h with
  | nil => rfl
  | cons _ _ ih => rw [List.length_cons, List.length_cons, ih]

/-- Every row is accepted or refused. -/
theorem length_accepted_add (fates : List Fate) :
    (accepted fates).length + refusals fates = fates.length := by
  induction fates with
  | nil => rfl
  | cons fate rest ih =>
    rw [accepted_cons, refusals_cons, List.length_append, List.length_cons]
    cases fate <;> simp [Fate.isRefused, Fate.row?] <;> omega

end

section

variable {c : Context} {rows : List Value} {row : Fields} {batch : List Fields} {done : Inserted}
  {fates : List Fate}

def Inserted.add (done : Inserted) (fate : Fate) : Inserted where
  rows := done.rows ++ fate.row?.toList
  errors := done.errors + if fate.isRefused then 1 else 0
  keys := done.keys ++ fate.key?.toList

theorem foldl_add (fates : List Fate) (done : Inserted) : fates.foldl Inserted.add done =
    ⟨done.rows ++ accepted fates, done.errors + refusals fates, done.keys ++ drawnKeys fates⟩ := by
  induction fates generalizing done with
  | nil => simp [accepted, refusals, drawnKeys]
  | cons fate rest ih =>
    rw [List.foldl_cons, ih, Inserted.add, accepted_cons, drawnKeys_cons, refusals_cons]
    simp only [List.append_assoc, Nat.add_assoc]

/-- A fresh key is a new field, so it comes last. -/
theorem set_primaryKey (hid : Fields.get? primaryKey row = none) (key : Value) :
    Fields.set primaryKey key row = row ++ [(primaryKey, key)] := by
  apply Fields.set_of_not_mem
  rw [← Fields.get?_isSome_iff, hid]
  exact Bool.false_ne_true

/-- One row. Only the drawing of a key shows in the state. -/
theorem exists_fate (hfresh : c.state.source.Fresh) (done : Inserted) (row : Fields) :
    ∃ fate drawn, Decides done.rows row fate ∧ (insertRow done row).runFrom c =
      (.ok (done.add fate), { c with state := { c.state with drawn } }) := by
  unfold insertRow
  cases hid : Fields.get? primaryKey row with
  | some id =>
    by_cases htaken : hasKey id done.rows = true
    · refine ⟨.refused, c.state.drawn, .refused hid (hasKey_iff.mp htaken), ?_⟩
      dsimp only
      rw [if_pos htaken, Inserted.add]
      simp [Fate.row?, Fate.key?, Fate.isRefused]
    · refine ⟨.kept row, c.state.drawn, .kept hid (mt hasKey_iff.mpr htaken), ?_⟩
      dsimp only
      rw [if_neg htaken, Inserted.add]
      simp [Fate.row?, Fate.key?, Fate.isRefused]
  | none =>
    have hfree := hfresh.hasKey_eq_false c.state.drawn done.rows
    refine ⟨.keyed row (c.state.source.key c.state.drawn done.rows), c.state.drawn + 1,
      .keyed hid fun htaken => ?_, ?_⟩
    · rw [← hasKey_iff, hfree] at htaken
      cases htaken
    · have hdraw : (freshKey done.rows).runFrom c =
          (.ok (c.state.source.key c.state.drawn done.rows),
            { c with state := { c.state with drawn := c.state.drawn + 1 } }) := rfl
      dsimp only
      rw [runFrom_bind, hdraw]
      dsimp only
      rw [set_primaryKey hid, runFrom_pure]
      rfl

/-- The loop over the batch, by induction on the rows to come: what was accepted before them is in
the table that they are decided on in. -/
theorem exists_batch (hfresh : c.state.source.Fresh) (batch : List Fields) (done : Inserted) :
    ∃ fates drawn, Batch done.rows batch fates ∧ (batch.foldlM insertRow done).runFrom c =
      (.ok (fates.foldl Inserted.add done), { c with state := { c.state with drawn } }) := by
  induction batch generalizing c done with
  | nil => exact ⟨[], c.state.drawn, .nil, rfl⟩
  | cons row rest ih =>
    obtain ⟨fate, drawn, hfirst, hrun⟩ := exists_fate hfresh done row
    obtain ⟨fates, last, hrest, hloop⟩ :=
      @ih { c with state := { c.state with drawn } } hfresh (done.add fate)
    refine ⟨fate :: fates, last, .cons hfirst hrest, ?_⟩
    rw [List.foldlM_cons, runFrom_bind, hrun]
    exact hloop

def Legal (row : Fields) : Prop :=
  ∀ id, Fields.get? primaryKey row = some id → id.isValidKey = true

theorem mapM_checkRow (h : ∀ row ∈ batch, Legal row) :
    (batch.map Value.object).mapM checkRow = .ok batch := by
  induction batch with
  | nil => rfl
  | cons row rest ih =>
    have hrow : checkRow (.object row) = .ok row := by
      have hlegal := h row List.mem_cons_self
      unfold checkRow
      cases hid : Fields.get? primaryKey row with
      | none => simp only [Value.asFields, hid, bind, Except.bind]; rfl
      | some id =>
        have hkey : Selection.checkKey true id = .ok () := if_pos (hlegal id hid)
        simp only [Value.asFields, hid, bind, Except.bind, hkey]
        rfl
    rw [List.map_cons, List.mapM_cons, hrow, ih fun r hr => h r (List.mem_cons_of_mem _ hr)]
    rfl

/-- The report that the loop leads to counts the fates. -/
theorem insertReport_eq (h : Batch rows batch fates) :
    insertReport batch.length (fates.foldl Inserted.add ⟨rows, 0, []⟩) = batchReport fates := by
  have hlength := length_accepted_add fates
  rw [h.length_eq] at hlength
  have hinserted : batch.length - (0 + refusals fates) = (accepted fates).length := by omega
  rw [foldl_add]
  unfold insertReport batchReport
  dsimp only
  rw [hinserted, Nat.zero_add, List.nil_append]
  congr 1
  · rcases Nat.eq_zero_or_pos (refusals fates) with hnone | hsome
    · rw [hnone]
      rfl
    · rw [if_neg (by omega), if_pos hsome]
  · cases drawnKeys fates <;> rfl

/-- An accepted row has a legal key that no row before it has, old or accepted. -/
theorem Batch.exists_key (h : Batch rows batch fates)
    (hbatch : ∀ row ∈ batch, (Value.object row).Distinct ∧ Legal row) {i : Nat} {new : Value}
    (hi : (accepted fates)[i]? = some new) : ∃ id, new.id? = some id ∧ id.isValidKey = true ∧
      id.Distinct ∧ ¬Taken id (rows ++ (accepted fates).take i) := by
  induction h generalizing i with
  | nil => cases hi
  | @cons rows row fate batch fates hfirst _ ih =>
    obtain ⟨hdistinct, hlegal⟩ := hbatch row List.mem_cons_self
    have hrest {j : Nat} := @ih (fun r hr => hbatch r (List.mem_cons_of_mem _ hr)) j
    rw [accepted_cons] at hi ⊢
    -- a row that is refused adds nothing, so the rest decides; else it is the first one accepted
    cases hfirst with
    | refused _ _ =>
      simp only [Fate.row?, Option.toList_none, List.nil_append, List.append_nil] at hi hrest ⊢
      exact hrest hi
    | kept hid hfree =>
      cases i with
      | zero =>
        cases hi
        refine ⟨_, hid, hlegal _ hid, Value.hereditary_distinct.get? hdistinct hid, ?_⟩
        rwa [List.take_zero, List.append_nil]
      | succ i =>
        obtain ⟨id, hnew, hvalid, hid, hfree⟩ := hrest hi
        exact ⟨id, hnew, hvalid, hid, by simpa [Fate.row?] using hfree⟩
    | @keyed key hid hfree =>
      cases i with
      | zero =>
        cases hi
        refine ⟨.string key, ?_, rfl, rfl, ?_⟩
        · change Fields.get? primaryKey _ = _
          rw [← set_primaryKey hid, Fields.get?_set, if_pos rfl]
        · rwa [List.take_zero, List.append_nil]
      | succ i =>
        obtain ⟨id, hnew, hvalid, hid, hfree⟩ := hrest hi
        exact ⟨id, hnew, hvalid, hid, by simpa [Fate.row?] using hfree⟩

/-- A key leads to the first row that has it. -/
theorem find_of_not_taken {id new : Value} {before : List Value} (after : List Value)
    (hid : new.id? = some id) (hdistinct : id.Distinct) (hfree : ¬Taken id before) :
    (before ++ new :: after).find? (Value.hasId id) = some new ∧
      (before ++ new :: after).findIdx? (Value.hasId id) = some before.length := by
  have hself : Value.hasId id new = true := by
    rw [Value.hasId, hid, Option.any_some, Value.strictEquals_eq_equals]
    exact Value.equals_refl hdistinct
  have hbefore : ∀ row ∈ before, Value.hasId id row = false := by
    rw [← hasKey_iff, Bool.not_eq_true] at hfree
    exact fun row hrow => Bool.eq_false_iff.mpr (List.any_eq_false.mp hfree row hrow)
  constructor
  · rw [List.find?_append, List.find?_eq_none.mpr (by simpa using hbefore), Option.none_or,
      List.find?_cons_of_pos hself]
  · rw [List.findIdx?_append, List.findIdx?_eq_none_iff.mpr hbefore, Option.none_or,
      List.findIdx?_cons, hself]
    simp

variable {ready : State} {t : String} {live : List Value} {arg : Argument}

/-- The action itself, from the evaluation of its argument on. -/
theorem runFrom_insert (receiver : Value) (options : Argument) (htype : c.type = .table)
    (htable : c.binding.table = some t)
    (harg : arg.resolve.runFrom c.state = (.ok (.array (batch.map .object)), ready))
    (hlive : ready.store.rows? t = some live) (hfresh : ready.source.Fresh)
    (hbatch : ∀ row ∈ batch, Legal row) : ∃ fates drawn, Batch live batch fates ∧
      (insert receiver arg options).runFrom c = (.ok (batchReport fates).toValue,
        { c with state :=
          { ready with store := ready.store.load t (live ++ accepted fates), drawn } }) := by
  obtain ⟨fates, drawn, hfates, hloop⟩ :=
    @exists_batch { c with state := ready } hfresh batch ⟨live, 0, []⟩
  refine ⟨fates, drawn, hfates, ?_⟩
  have hresolve : (Act.resolve arg).runFrom c =
      (.ok (.array (batch.map .object)), { c with state := ready }) := by
    rw [Act.resolve, runFrom_ofEval, harg]
  have hrows : ({ c with state := ready } : Context).rows = .ok live :=
    Context.rows_eq_ok.mpr ⟨t, htable, hlive⟩
  unfold insert
  rw [runFrom_bind, runFrom_ask, Context.expectType_eq htype]
  dsimp only
  rw [runFrom_bind, hresolve]
  dsimp only
  rw [runFrom_bind, runFrom_ofExcept, mapM_checkRow hbatch]
  dsimp only
  rw [runFrom_bind, runFrom_ask, hrows]
  dsimp only
  rw [runFrom_bind, hloop]
  dsimp only
  rw [runFrom_bind, runFrom_setRows, htable]
  dsimp only
  rw [runFrom_pure, insertReport_eq hfates, foldl_add]

/-- An insertion into a table succeeds. The table keeps its rows and gets the accepted ones, each
decided on in the table as it is then, and the report counts them; no other table changes. After
that `get` finds every accepted row by its key, at its position. -/
theorem insert_then_get (receiver : Value) {options : List Argument}
    (hoptions : options.length ≤ 1) (htype : c.type = .table) (htable : c.binding.table = some t)
    (harg : arg.resolve.runFrom c.state = (.ok (.array (batch.map .object)), ready))
    (hlive : ready.store.rows? t = some live) (hfresh : ready.source.Fresh)
    (hbatch : ∀ row ∈ batch, (Value.object row).Distinct ∧ Legal row) :
    ∃ fates next, Batch live batch fates ∧
      (Registry.builtin.invoke "insert" receiver (arg :: options)).runFrom c =
        (.ok (batchReport fates).toValue, next) ∧
      ReportsBatch fates (batchReport fates).toValue ∧
      (∀ name, next.state.store.rows? name =
        if name = t then some (live ++ accepted fates) else ready.store.rows? name) ∧
      ∀ i new, (accepted fates)[i]? = some new → ∃ id, new.id? = some id ∧
        ((Term.call "get" (.table t) [.datum id]).evaluate none).runFrom next.state =
          (.ok ⟨new, .selection, ⟨some t, some (live.length + i), some id⟩⟩, next.state) := by
  have hinvoke : Registry.builtin.invoke "insert" receiver (arg :: options) =
      insert receiver arg (options[0]?.getD .undefined) := by
    match options, hoptions with
    | [], _ => rfl
    | [_], _ => rfl
  obtain ⟨fates, drawn, hfates, hrun⟩ := runFrom_insert receiver (options[0]?.getD .undefined)
    htype htable harg hlive hfresh fun row hrow => (hbatch row hrow).2
  have hrows (name : String) : (ready.store.load t (live ++ accepted fates)).rows? name =
      if name = t then some (live ++ accepted fates) else ready.store.rows? name :=
    Store.rows?_load ready.store t name _
  refine ⟨fates, _, hfates, hinvoke ▸ hrun, reportsBatch fates, hrows, fun i new hi => ?_⟩
  obtain ⟨id, hid, hvalid, hdistinct, hfree⟩ := hfates.exists_key hbatch hi
  -- the accepted rows before this one and behind it
  have hsplit : live ++ accepted fates =
      live ++ (accepted fates).take i ++ new :: (accepted fates).drop (i + 1) := by
    obtain ⟨hlt, hget⟩ := List.getElem?_eq_some_iff.mp hi
    rw [List.append_assoc, ← hget, ← List.drop_eq_getElem_cons hlt, List.take_append_drop]
  have hposition : (live ++ (accepted fates).take i).length = live.length + i := by
    have hlt := (List.getElem?_eq_some_iff.mp hi).1
    rw [List.length_append, List.length_take]
    omega
  obtain ⟨hfind, hindex⟩ :=
    find_of_not_taken ((accepted fates).drop (i + 1)) hid hdistinct hfree
  refine ⟨id, hid, ?_⟩
  rw [Term.evaluate_get ((hrows t).trans (if_pos rfl)) hvalid, hsplit, hfind, hindex, hposition]
  rfl

end

/-- Of three rows the first has the key of an old row, the second has none and the third has a new
one. -/
theorem insert_then_get_mixed :
    let live : List Value := [.object [("id", .bool true)]]
    let batch : List Fields := [[("id", .bool true), ("v", .string "x")], [("v", .string "y")],
      [("id", .bool false)]]
    let c : Context := ⟨.table, { table := some "t" }, ⟨⟨[("t", live)]⟩, .repeating, 0⟩⟩
    (∀ row ∈ batch, (Value.object row).Distinct ∧ Legal row) ∧ c.state.source.Fresh ∧
      ∃ (key : String) (next : Context),
        (Registry.builtin.invoke "insert" .null [.datum (.array (batch.map .object))]).runFrom c =
          (.ok (.object [("errors", .number (.int 1)), ("inserted", .number (.int 2)),
            ("first_error", .string duplicateKey), ("generated_keys", .array [.string key])]),
            next) ∧
        next.state.store.rows? "t" = some [.object [("id", .bool true)],
          .object [("v", .string "y"), ("id", .string key)], .object [("id", .bool false)]] ∧
        ((Term.call "get" (.table "t") [.datum (.bool false)]).evaluate none).runFrom next.state =
          (.ok ⟨.object [("id", .bool false)], .selection, ⟨some "t", some 2, some (.bool false)⟩⟩,
            next.state) := by
  intro live batch c
  have hbatch : ∀ row ∈ batch, (Value.object row).Distinct ∧ Legal row := by
    simp only [batch, List.forall_mem_cons]
    refine ⟨⟨by decide, ?_⟩, ⟨by decide, ?_⟩, ⟨by decide, ?_⟩, by simp⟩
    all_goals
      intro id hid
      cases hid
      try rfl
  refine ⟨hbatch, KeySource.repeating_fresh, ?_⟩
  have harg : (Argument.datum (.array (batch.map .object))).resolve.runFrom c.state =
      (.ok (.array (batch.map .object)), c.state) := rfl
  have hnone : ([] : List Argument).length ≤ 1 := by decide
  obtain ⟨fates, next, hfates, hrun, -, hrows, hget⟩ :=
    insert_then_get .null hnone rfl rfl harg rfl KeySource.repeating_fresh hbatch
  -- each row has one fate only
  obtain ⟨key, rfl⟩ : ∃ key, fates = [.refused, .keyed [("v", .string "y")] key,
      .kept [("id", .bool false)]] := by
    dsimp only [live, batch] at hfates
    rcases hfates with _ | ⟨⟨hfirst, hfree⟩ | ⟨hfirst, -⟩ | -, hrest⟩
    · cases hfirst
      exact absurd (hasKey_iff.mp rfl) hfree
    · cases hfirst
    rcases hrest with _ | ⟨⟨hsecond, -⟩ | - | ⟨hsecond, -⟩, hrest⟩
    · cases hsecond
    · rcases hrest with _ | ⟨- | ⟨hthird, -⟩ | ⟨hthird, htaken⟩, hrest⟩
      · cases hrest
        exact ⟨_, rfl⟩
      · cases hthird
      · cases hthird
        cases hasKey_iff.mpr htaken
    · cases hsecond
  obtain ⟨id, hid, hfound⟩ := hget 1 (.object [("id", .bool false)]) rfl
  cases hid
  exact ⟨key, next, hrun, hrows "t", hfound⟩

end Mutation

end TableQuery
