import TableQuery.Action.Catalogue
import TableQuery.Proofs.Action.Asking
import TableQuery.Proofs.Failures

namespace TableQuery

def Error.ofAction : Error → Bool
  | kindMismatch .. | unaccepted .. | fractionalIndex _ | replacementKind _ | indexOutOfBounds
  | streamIndex | negativeLimit | unrepresentable _ | notSelected .. | illegalKey _ | nullKey
  | keyChanged | keyMissing | tableNotFound _ => true
  | _ => false

abbrev Checks {α : Type} (x : Except Error α) : Prop := FailsOnly (fun e => e.ofAction = true) x

namespace Checks

theorem expect (kind : Kind) (v : Value) : Checks (v.expect kind) := by
  unfold Value.expect
  split
  · exact .ok ()
  · exact .error rfl

theorem asString (v : Value) : Checks v.asString := by
  cases v with
  | string s => exact .ok s
  | _ => exact .error rfl

theorem asScaled (v : Value) : Checks v.asScaled := by
  cases v with
  | number n => exact .ok _
  | _ => exact .error rfl

theorem asFields (v : Value) : Checks v.asFields := by
  cases v with
  | object fields => exact .ok fields
  | _ => exact .error rfl

theorem fieldNames (vs : List Value) : Checks (Value.fieldNames vs) := .mapM asString _

theorem toValue (x : Binary64) : Checks x.toValue := by
  unfold Binary64.toValue
  split
  · split
    · exact .ok _
    · exact .ok _
  · exact .error rfl

theorem foldNumbers (op : Binary64 → Binary64 → Binary64) (receiver : Value) (args : List Value) :
    Checks (Arithmetic.foldNumbers op receiver args) := by
  refine .bind (asScaled receiver) fun first => ?_
  have hstep (total : Binary64) (arg : Value) :
      Checks (do return op total (.finite (← arg.asScaled))) :=
    .bind (asScaled arg) fun _ => .ok _
  exact .bind (.foldlM hstep args _) toValue

theorem sum (receiver : Value) (args : List Value) : Checks (Arithmetic.sum receiver args) := by
  refine .bind (.forM (expect receiver.kind) args) fun _ => ?_
  cases receiver with
  | array items => exact .ok _
  | string s => exact .ok _
  | _ => exact foldNumbers _ _ _

theorem wholeIndex (index : Value) : Checks (Access.wholeIndex index) := by
  refine .bind (asScaled index) fun x => ?_
  split
  · exact .ok _
  · exact .error rfl

theorem items (v : Value) : Checks (Access.items v) := by
  cases v with
  | array items => exact .ok items
  | _ => exact .error rfl

theorem nth (rows : List Value) (index : Int) : Checks (Sequence.nth rows index) := by
  unfold Sequence.nth
  dsimp only
  split
  · exact .error rfl
  · split
    · exact .ok _
    · exact .error rfl

/-- An operation on rows looks at each of them first. -/
theorem rows {α : Type} (xs : List Value) (f : List Fields → α) :
    Checks (do return f (← xs.mapM Value.asFields)) :=
  .bind (.mapM asFields xs) fun _ => .ok _

theorem onRows {accepted : Accepted} {ofRows : List Value → Except Error Value}
    {ofObject : Fields → Value} (h : ∀ rows, Checks (ofRows rows)) (v : Value) :
    Checks (Access.onRows accepted ofRows ofObject v) := by
  cases v with
  | array rows => exact h rows
  | object fields => exact .ok _
  | _ => exact .error rfl

theorem slice (rows args : List Value) : Checks (Sequence.slice rows args) := by
  unfold Sequence.slice
  rcases Sequence.splitOptions args with ⟨given, options⟩
  dsimp only
  -- the start has to be there, the end may be missing
  split
  · exact .error rfl
  · refine .bind (asScaled _) fun start => ?_
    split
    · exact .ok _
    · exact .ok _
    · exact .ok _
    · exact .bind (.map (asScaled _)) fun stop => .ok _

theorem orderBy (name : String) (rows : List Value) : Checks (Sequence.orderBy name rows) :=
  .bind (.mapM asFields rows) fun _ => .ok _

theorem checkKey (primary : Bool) (key : Value) : Checks (Selection.checkKey primary key) := by
  unfold Selection.checkKey
  split
  · exact .ok ()
  · exact .error rfl

theorem checkKeys (index : String) (keys : List Value) :
    Checks (Selection.checkKeys index keys) := by
  refine .forM (fun key => ?_) keys
  split
  · exact .error rfl
  · exact checkKey _ key

theorem indexField (options : Option Fields) : Checks (Selection.indexField options) := by
  unfold Selection.indexField
  split
  · exact .ok _
  · exact .ok _
  · exact asString _

theorem checkRow (row : Value) : Checks (Mutation.checkRow row) := by
  refine .bind (asFields row) fun fields => ?_
  split
  · exact .bind (checkKey true _) fun _ => .ok fields
  · exact .ok fields

theorem asPatch (v : Value) : Checks (Mutation.asPatch v) := by
  cases v with
  | object patch => exact .ok patch
  | _ => exact .error rfl

theorem replacementKey (v : Value) : Checks (Mutation.replacementKey v) := by
  unfold Mutation.replacementKey
  split
  · split
    · exact .ok _
    · exact .error rfl
  · exact .error rfl

theorem tableName (c : Context) : Checks c.tableName := by
  unfold Context.tableName
  split
  · exact .ok _
  · exact .error rfl

theorem storeRows (store : Store) (name : String) : Checks (store.rows name) := by
  unfold Store.rows
  split
  · exact .ok _
  · exact .error rfl

theorem contextRows (c : Context) : Checks c.rows := .bind (tableName c) (storeRows c.state.store)

theorem locate (row : Value) (c : Context) : Checks (Context.locate row c) :=
  .bind (contextRows c) fun _ => .ok _

theorem expectType (type : TypeTag) (c : Context) : Checks (Context.expectType type c) := by
  unfold Context.expectType
  split
  · exact .ok ()
  · exact .error rfl

theorem expectSelection (c : Context) : Checks c.expectSelection := by
  unfold Context.expectSelection
  split
  · exact .ok ()
  · exact .error rfl

end Checks

def Implementation.Raises (E : Error → Prop) (arity : Arity) (i : Implementation) : Prop :=
  ∀ receiver args, (∀ a ∈ args, a.Raises E) →
    (args.length < arity.min → Argument.undefined.Raises E) →
    TableQuery.Raises E (i.call receiver args)

/-- The first argument of an action that asks for one. -/
theorem Argument.raises_first {E : Error → Prop} {args : List Argument}
    (h : ∀ a ∈ args, a.Raises E) (hmissing : args.length < 1 → Argument.undefined.Raises E) :
    (args[0]?.getD Argument.undefined).Raises E := by
  cases args with
  | nil => exact hmissing (by decide)
  | cons a rest => exact h a List.mem_cons_self

section

variable {E : Error → Prop} (hE : ∀ e : Error, e.ofAction = true → E e)

include hE

namespace Raises

variable {α : Type}

theorem check {x : Except Error α} (h : Checks x) : Raises E (MonadExcept.ofExcept x : Act α) :=
  ofExcept (h.imp hE)

theorem askChecked {f : Context → Except Error α} (h : ∀ c, Checks (f c)) :
    Raises E (Act.ask f) :=
  ask fun c => (h c).imp hE

theorem setRows (rows : List Value) : Raises E (Act.setRows rows) := by
  intro c
  have hrun := Act.runFrom_setRows rows c
  rw [Act.runFrom] at hrun
  rw [hrun]
  cases c.binding.table with
  | none => exact .error (hE _ rfl)
  | some name => exact .ok ()

theorem bindRow (row : Value) (position : Nat) : Raises E (Act.bindRow row position) := by
  refine get_bind fun c => ?_
  split
  · refine bind (setRowIndex _) fun _ => ?_
    refine bind (askChecked hE (Checks.locate row)) fun index => ?_
    exact bind (setRowIndex index) fun _ => setRowId _
  · exact pure ()

end Raises

variable {receiver row : Value} {rows : List Value} {arg : Argument} {args : List Argument}

namespace Arithmetic

theorem numeric_raises {op : Binary64 → Binary64 → Binary64} (hargs : ∀ a ∈ args, a.Raises E) :
    Raises E (numeric op receiver args) :=
  .bind (.resolveAll hargs) fun vs => .check hE (Checks.foldNumbers op receiver vs)

theorem add_raises (hargs : ∀ a ∈ args, a.Raises E) : Raises E (add receiver args) := by
  have hsum (v : Value) : Raises E (do ofExcept (sum v (← Act.resolveAll args)) : Act Value) :=
    .bind (.resolveAll hargs) fun vs => .check hE (Checks.sum v vs)
  cases receiver with
  | number n => exact hsum _
  | string text => exact hsum _
  | array items => exact hsum _
  | _ => exact .throw (hE _ rfl)

theorem entries_raise : ∀ e ∈ entries, e.implementation.Raises E e.arity := by
  simp only [entries, List.forall_mem_cons]
  refine ⟨?_, ?_, ?_, ?_, by simp⟩
  · exact fun _ _ hargs _ => add_raises hE hargs
  all_goals exact fun _ _ hargs _ => numeric_raises hE hargs

end Arithmetic

omit hE in
theorem Comparison.entries_raise : ∀ e ∈ entries, e.implementation.Raises E e.arity := by
  simp only [entries, List.forall_mem_cons]
  refine ⟨?_, ?_, ?_, ?_, ?_, ?_, by simp⟩
  all_goals exact fun _ _ hargs _ => .map (.resolveAll hargs)

namespace Access

theorem nthRow_raises (index : Value) : Raises E (nthRow receiver index) := by
  refine .bind (.check hE (Checks.wholeIndex index)) fun n => .get_bind fun c => ?_
  split
  · exact .throw_bind (hE _ rfl)
  · refine .bind (.check hE (Checks.items receiver)) fun rows => ?_
    refine .bind (.check hE (Checks.nth rows n)) fun row => ?_
    exact .bind (.bindRow hE row _) fun _ => .pure row

theorem nth_raises (harg : arg.Raises E) : Raises E (nth receiver arg) :=
  .bind (.resolve harg) (nthRow_raises hE)

omit hE in
theorem checks_fieldOf (accepted : Accepted) (name : String) (v : Value) :
    Checks (fieldOf accepted name v) :=
  Checks.onRows (fun rows => .map (Checks.rows rows _)) v

theorem bracket_raises (harg : arg.Raises E) : Raises E (bracket receiver arg) := by
  refine .bind (.resolve harg) fun key => ?_
  split
  · exact nthRow_raises hE _
  · exact .check hE (checks_fieldOf _ _ receiver)
  · exact .throw (hE _ rfl)

theorem getField_raises (harg : arg.Raises E) : Raises E (getField receiver arg) := by
  refine .bind (.resolve harg) fun key => ?_
  refine .bind (.check hE (Checks.asString key)) fun name => ?_
  exact .check hE (checks_fieldOf _ name receiver)

theorem named_raises {op : List String → Value → Except Error Value}
    (hop : ∀ names v, Checks (op names v)) (hargs : ∀ a ∈ args, a.Raises E) :
    Raises E (named op receiver args) := by
  refine .bind (.resolveAll hargs) fun vs => ?_
  refine .bind (.check hE (Checks.fieldNames vs)) fun names => ?_
  exact .check hE (hop names receiver)

omit hE in
theorem mergeRow_raises (hargs : ∀ a ∈ args, a.Raises E) (row : Value) :
    Raises E (mergeRow args row) :=
  .foldlM (fun merged a ha => .map (.evalRow (hargs a ha) merged)) row

theorem merge_raises (hargs : ∀ a ∈ args, a.Raises E) : Raises E (merge receiver args) := by
  unfold merge
  split
  · refine .map (.mapM fun row _ => ?_)
    exact .bind (.check hE (Checks.expect .object row)) fun _ => mergeRow_raises hargs row
  · exact mergeRow_raises hargs _
  · exact .throw (hE _ rfl)

theorem entries_raise : ∀ e ∈ entries, e.implementation.Raises E e.arity := by
  have hrows {f : List String → List Fields → List Value} {g : List String → Fields → Value}
      (names : List String) (v : Value) : Checks (onRows .arrayOrObject
        (fun rows => .array <$> (do return f names (← rows.mapM Value.asFields))) (g names) v) :=
    Checks.onRows (fun rows => .map (Checks.rows rows _)) v
  simp only [entries, List.forall_mem_cons]
  refine ⟨?_, ?_, ?_, ?_, ?_, ?_, ?_, by simp⟩
  · exact fun _ _ hargs hmissing => bracket_raises hE (Argument.raises_first hargs hmissing)
  · exact fun _ _ hargs hmissing => nth_raises hE (Argument.raises_first hargs hmissing)
  · exact fun _ _ hargs hmissing => getField_raises hE (Argument.raises_first hargs hmissing)
  · exact fun _ _ hargs _ => named_raises hE hrows hargs
  · exact fun _ _ hargs _ => merge_raises hE hargs
  · exact fun _ _ hargs _ => named_raises hE hrows hargs
  · exact fun _ _ hargs _ => named_raises hE hrows hargs

end Access

namespace Range

theorem slice_raises (hargs : ∀ a ∈ args, a.Raises E) : Raises E (slice receiver args) := by
  refine .bind (.check hE (Checks.items receiver)) fun rows => ?_
  refine .bind (.resolveAll hargs) fun vs => ?_
  exact .map (.check hE (Checks.slice rows vs))

theorem limit_raises (harg : arg.Raises E) : Raises E (limit receiver arg) := by
  refine .bind (.resolve harg) fun v => ?_
  refine .bind (.check hE (Checks.asScaled v)) fun n => ?_
  split
  · exact .throw_bind (hE _ rfl)
  · exact .map (.check hE (Checks.items receiver))

theorem count_raises : Raises E (count receiver) := by
  cases receiver with
  | array items => exact .pure _
  | object fields => exact .pure _
  | _ => exact .throw (hE _ rfl)

omit hE in
theorem flags_raises {run : Option Value → Eval Value} (hrun : (Argument.deferred run).Raises E)
    (rows : List Value) : Raises E (flags run rows) :=
  .mapM fun row _ => .map (.ofEval (hrun (some row)))

theorem offsetsOf_raises (harg : arg.Raises E) : Raises E (offsetsOf receiver arg) := by
  refine .bind (.check hE (Checks.items receiver)) fun rows => ?_
  dsimp only
  split
  · rw [offsetsWhere_bind]
    exact .bind (flags_raises harg rows) fun _ => .pure _
  · exact .bind (.resolve harg) fun _ => .pure _

theorem filter_raises (harg : arg.Raises E) : Raises E (filter receiver arg) := by
  refine .bind (.check hE (Checks.items receiver)) fun rows => ?_
  split
  · rw [rowsWhere_bind]
    exact .map (flags_raises harg rows)
  · exact .map (.resolve harg)

theorem orderBy_raises (harg : arg.Raises E) : Raises E (orderBy receiver arg) := by
  refine .bind (.resolve harg) fun v => ?_
  refine .bind (.check hE (Checks.asString v)) fun name => ?_
  refine .bind (.check hE (Checks.items receiver)) fun rows => ?_
  exact .map (.check hE (Checks.orderBy name rows))

theorem entries_raise : ∀ e ∈ entries, e.implementation.Raises E e.arity := by
  simp only [entries, List.forall_mem_cons]
  refine ⟨?_, ?_, ?_, ?_, ?_, ?_, by simp⟩
  · exact fun _ _ hargs _ => slice_raises hE hargs
  · exact fun _ _ hargs hmissing => limit_raises hE (Argument.raises_first hargs hmissing)
  · exact fun _ _ _ _ => count_raises hE
  · exact fun _ _ hargs hmissing =>
      offsetsOf_raises hE (Argument.raises_first hargs hmissing)
  · exact fun _ _ hargs hmissing => filter_raises hE (Argument.raises_first hargs hmissing)
  · exact fun _ _ hargs hmissing => orderBy_raises hE (Argument.raises_first hargs hmissing)

end Range

namespace Selection

theorem get_raises (harg : arg.Raises E) : Raises E (get receiver arg) := by
  refine .bind (.askChecked hE (Checks.expectType .table)) fun _ => ?_
  split
  · exact .throw_bind harg.2
  · refine .bind (.resolve harg) fun key => ?_
    refine .bind (.check hE (Checks.checkKey true key)) fun _ => ?_
    refine .bind (.check hE (Checks.items receiver)) fun rows => ?_
    exact .bind (.setRowIndex _) fun _ => .bind (.setRowId _) fun _ => .pure _

theorem getAll_raises (hargs : ∀ a ∈ args, a.Raises E) : Raises E (getAll receiver args) := by
  refine .bind (.askChecked hE (Checks.expectType .table)) fun _ => ?_
  refine .bind (.setRowIndex none) fun _ => .bind (.setRowId none) fun _ => ?_
  refine .bind (.resolveAll hargs) fun vs => ?_
  refine .bind (.check hE (Checks.indexField _)) fun index => ?_
  refine .bind (.check hE (Checks.checkKeys index _)) fun _ => ?_
  exact .map (.check hE (Checks.items receiver))

theorem entries_raise : ∀ e ∈ entries, e.implementation.Raises E e.arity := by
  simp only [entries, List.forall_mem_cons]
  refine ⟨?_, ?_, by simp⟩
  · exact fun _ _ hargs hmissing => get_raises hE (Argument.raises_first hargs hmissing)
  · exact fun _ _ hargs _ => getAll_raises hE hargs

end Selection

namespace Mutation

omit hE in
theorem insertRow_raises (done : Inserted) (row : Fields) : Raises E (insertRow done row) := by
  unfold insertRow
  split
  · split
    · exact .pure _
    · exact .pure _
  · exact .map (.freshKey done.rows)

theorem insert_raises (receiver : Value) (options : Argument) (harg : arg.Raises E) :
    Raises E (insert receiver arg options) := by
  refine .bind (.askChecked hE (Checks.expectType .table)) fun _ => ?_
  refine .bind (.resolve harg) fun given => ?_
  refine .bind (.check hE (.mapM Checks.checkRow _)) fun rows => ?_
  refine .bind (.askChecked hE Checks.contextRows) fun live => ?_
  refine .bind (.foldlM (fun done row _ => insertRow_raises done row) _) fun done => ?_
  exact .bind (.setRows hE done.rows) fun _ => .pure _

theorem applyPatch_raises (index : Nat) (patch : Fields) : Raises E (applyPatch index patch) := by
  refine .bind (.askChecked hE Checks.contextRows) fun live => ?_
  split
  · split
    · exact .pure _
    · exact .bind (.setRows hE _) fun _ => .pure _
  · exact .pure _

theorem updateRow_raises (harg : arg.Raises E) : Raises E (updateRow row arg) := by
  refine .bind (.askChecked hE (Checks.expectType .selection)) fun _ => ?_
  split
  · exact .pure _
  · refine .bind (.evalRow harg row) fun v => ?_
    refine .bind (.check hE (Checks.asPatch v)) fun patch => ?_
    refine .bind (.askChecked hE (Checks.locate row)) fun found => ?_
    split
    · exact .pure _
    · refine .bind (applyPatch_raises hE _ patch) fun outcome => ?_
      split
      · exact .pure _
      · exact .pure _
      · exact .throw (hE _ rfl)

theorem patchRow_raises (done : Tally) (row : Value) (patch : Fields) :
    Raises E (patchRow done row patch) := by
  refine .bind (.askChecked hE (Checks.locate row)) fun found => ?_
  split
  · exact .pure _
  · refine .bind (applyPatch_raises hE _ patch) fun outcome => ?_
    split
    · exact .pure _
    · exact .pure _
    · exact .pure _

theorem updateRows_raises (harg : arg.Raises E) : Raises E (updateRows rows arg) := by
  refine .bind (.askChecked hE Checks.expectSelection) fun _ => ?_
  split
  · exact .pure _
  · refine .bind (.mapM fun row _ => ?_) fun patches => ?_
    · exact .bind (.evalRow harg row) fun v => .check hE (Checks.asPatch v)
    · exact .map (.foldlM (fun done pair _ => patchRow_raises hE done pair.1 pair.2) _)

theorem update_raises (options : Argument) (harg : arg.Raises E) :
    Raises E (update receiver arg options) := by
  unfold update
  split
  · exact .map (updateRows_raises hE harg)
  · exact .map (updateRow_raises hE harg)

theorem deleteRow_raises : Raises E (deleteRow row) := by
  unfold deleteRow
  split
  · exact .pure _
  · refine .bind (.askChecked hE (Checks.expectType .selection)) fun _ => ?_
    refine .bind (.askChecked hE (Checks.locate row)) fun found => ?_
    split
    · exact .pure _
    · refine .bind (.askChecked hE Checks.contextRows) fun live => ?_
      exact .bind (.setRows hE _) fun _ => .bind (.setRowIndex none) fun _ => .pure _

theorem deleteRows_raises : Raises E (deleteRows rows) := by
  have hwrite {written : List Value → List Value} {report : List Value → Report} :
      Raises E (do
        let live ← Act.ask Context.rows
        Act.setRows (written live)
        return report live : Act Report) :=
    .bind (.askChecked hE Checks.contextRows) fun _ => .bind (.setRows hE _) fun _ => .pure _
  refine .get_bind fun c => ?_
  split
  · exact hwrite
  · refine .bind (.askChecked hE (Checks.expectType .selectionArray)) fun _ => ?_
    split
    · exact .pure _
    · exact hwrite

theorem delete_raises : Raises E (delete receiver) := by
  unfold delete
  split
  · exact .map (deleteRows_raises hE)
  · exact .map (deleteRow_raises hE)

theorem replaceMissing_raises (harg : arg.Raises E) : Raises E (replaceMissing arg) := by
  refine .bind (.resolve harg) fun row => ?_
  refine .bind (.check hE (Checks.replacementKey row)) fun key => ?_
  refine .bind (.askChecked hE Checks.contextRows) fun live => ?_
  split
  · exact .pure _
  · exact .bind (.setRows hE _) fun _ => .pure _

theorem replaceRow_raises (harg : arg.Raises E) (done : Tally) (row : Value) :
    Raises E (replaceRow arg done row) := by
  refine .bind (.evalRow harg row) fun new => ?_
  refine .bind (.check hE (Checks.replacementKey new)) fun key => ?_
  split
  · exact .pure _
  · split
    · exact .pure _
    · refine .bind (.askChecked hE (Checks.locate row)) fun found => ?_
      split
      · exact .pure _
      · refine .bind (.askChecked hE Checks.contextRows) fun live => ?_
        exact .bind (.setRows hE _) fun _ => .pure _

theorem replaceRows_raises (harg : arg.Raises E) (rows : List Value) :
    Raises E (replaceRows rows arg) :=
  .map (.foldlM (fun done row _ => replaceRow_raises hE harg done row) _)

theorem replace_raises (options : Argument) (harg : arg.Raises E) :
    Raises E (replace receiver arg options) := by
  refine .bind (.askChecked hE Checks.expectSelection) fun _ => ?_
  dsimp only
  split
  · split
    · exact .map (.pure _)
    · exact .map (deleteRows_raises hE)
    · exact .map (deleteRow_raises hE)
  · split
    · exact .map (replaceMissing_raises hE harg)
    · exact .map (replaceRows_raises hE harg _)
    · exact .map (replaceRows_raises hE harg _)

/-- No mutation looks at its options, so that these may be missing. -/
theorem entries_raise : ∀ e ∈ entries, e.implementation.Raises E e.arity := by
  simp only [entries, List.forall_mem_cons]
  refine ⟨?_, ?_, ?_, ?_, by simp⟩
  · exact fun receiver _ hargs hmissing =>
      insert_raises hE receiver .undefined (Argument.raises_first hargs hmissing)
  · exact fun _ _ hargs hmissing =>
      update_raises hE .undefined (Argument.raises_first hargs hmissing)
  · exact fun _ _ hargs hmissing =>
      replace_raises hE .undefined (Argument.raises_first hargs hmissing)
  · exact fun _ _ _ _ => delete_raises hE

end Mutation

/-- Whatever the action, its errors are of its own or those of its arguments. -/
theorem raises_of_mem_catalogue {e : Entry} (he : e ∈ catalogue) :
    e.implementation.Raises E e.arity := by
  simp only [catalogue, List.cons_append, List.mem_cons, List.mem_append] at he
  rcases he with rfl | ((((he | he) | he) | he) | he) | he
  · exact fun _ _ _ _ => .pure _
  · exact Arithmetic.entries_raise hE e he
  · exact Comparison.entries_raise e he
  · exact Access.entries_raise hE e he
  · exact Range.entries_raise hE e he
  · exact Selection.entries_raise hE e he
  · exact Mutation.entries_raise hE e he

end

end TableQuery
