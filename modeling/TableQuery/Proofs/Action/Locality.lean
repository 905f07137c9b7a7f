import TableQuery.Action.Catalogue
import TableQuery.Proofs.Action.Asking
import TableQuery.Proofs.Uniform

namespace TableQuery

def Implementation.Local (source : KeySource) (names : List String) (i : Implementation) : Prop :=
  ∀ receiver args, (∀ a ∈ args, a.Uniform source names) →
    (i.call receiver args).Local source names

/-- An argument that is not given means the same everywhere. -/
theorem Argument.uniform_getD {source : KeySource} {names : List String} {args : List Argument}
    (h : ∀ a ∈ args, a.Uniform source names) (i : Nat) :
    (args[i]?.getD .undefined).Uniform source names := by
  cases hi : args[i]? with
  | none => exact trivial
  | some a => exact h a (List.mem_of_getElem? hi)

section

variable {source : KeySource} {names : List String} {receiver row : Value} {rows : List Value}
  {arg : Argument} {args : List Argument}

namespace Arithmetic

theorem numeric_local {op : Binary64 → Binary64 → Binary64}
    (hargs : ∀ a ∈ args, a.Uniform source names) : (numeric op receiver args).Local source names :=
  Uniform.bind (Uniform.resolveAll hargs) fun _ _ => Uniform.check _

theorem add_local (hargs : ∀ a ∈ args, a.Uniform source names) :
    (add receiver args).Local source names := by
  have hsum (v : Value) : (do ofExcept (sum v (← Act.resolveAll args)) : Act Value).Local
      source names := Uniform.bind (Uniform.resolveAll hargs) fun _ _ => Uniform.check _
  cases receiver with
  | null => exact Uniform.throw
  | bool b => exact Uniform.throw
  | number n => exact hsum _
  | string text => exact hsum _
  | array items => exact hsum _
  | object fields => exact Uniform.throw

theorem entries_local : ∀ e ∈ entries, e.implementation.Local source names := by
  simp only [entries, List.forall_mem_cons]
  refine ⟨?_, ?_, ?_, ?_, by simp⟩
  · exact fun _ _ hargs => add_local hargs
  all_goals exact fun _ _ hargs => numeric_local hargs

end Arithmetic

theorem Comparison.entries_local : ∀ e ∈ entries, e.implementation.Local source names := by
  simp only [entries, List.forall_mem_cons]
  refine ⟨?_, ?_, ?_, ?_, ?_, ?_, by simp⟩
  all_goals exact fun _ _ hargs => Uniform.bind (Uniform.resolveAll hargs) fun _ _ =>
    Uniform.pure trivial

namespace Access

theorem nthRow_local (index : Value) : (nthRow receiver index).Local source names := by
  refine Uniform.bind (Uniform.check _) fun n _ => ?_
  -- of the context only the type is looked at, before the row is bound
  refine Uniform.getType_bind (fun c c' h => by rw [h]) fun c => ?_
  split
  · exact Uniform.throw_bind
  · refine Uniform.bind (Uniform.check _) fun rows _ => ?_
    refine Uniform.bind (Uniform.check _) fun row _ => ?_
    exact Uniform.bind (Uniform.bindRow _ _) fun _ _ => Uniform.pure trivial

theorem bracket_local (harg : arg.Uniform source names) :
    (bracket receiver arg).Local source names := by
  refine Uniform.bind (Uniform.resolve harg) fun key _ => ?_
  split
  · exact nthRow_local _
  · exact Uniform.check _
  · exact Uniform.throw

theorem nth_local (harg : arg.Uniform source names) : (nth receiver arg).Local source names :=
  Uniform.bind (Uniform.resolve harg) fun _ _ => nthRow_local _

theorem getField_local (harg : arg.Uniform source names) :
    (getField receiver arg).Local source names := by
  refine Uniform.bind (Uniform.resolve harg) fun key _ => ?_
  exact Uniform.bind (Uniform.check _) fun name _ => Uniform.check _

theorem named_local {op : List String → Value → Except Error Value}
    (hargs : ∀ a ∈ args, a.Uniform source names) :
    (named op receiver args).Local source names := by
  refine Uniform.bind (Uniform.resolveAll hargs) fun vs _ => ?_
  exact Uniform.bind (Uniform.check _) fun fields _ => Uniform.check _

theorem mergeRow_local (hargs : ∀ a ∈ args, a.Uniform source names) (row : Value) :
    (mergeRow args row).Local source names := by
  refine Uniform.foldlM trivial fun merged _ a ha => ?_
  exact Uniform.map (Uniform.evalRow (hargs a ha) merged) fun _ _ => trivial

theorem merge_local (hargs : ∀ a ∈ args, a.Uniform source names) :
    (merge receiver args).Local source names := by
  unfold merge
  split
  · refine Uniform.map (Uniform.mapM (Q := fun _ => True) fun row _ => ?_) fun _ _ => trivial
    exact Uniform.bind (Uniform.check _) fun _ _ => mergeRow_local hargs row
  · exact mergeRow_local hargs _
  · exact Uniform.throw

theorem entries_local : ∀ e ∈ entries, e.implementation.Local source names := by
  simp only [entries, List.forall_mem_cons]
  refine ⟨?_, ?_, ?_, ?_, ?_, ?_, ?_, by simp⟩
  · exact fun _ _ hargs => bracket_local (Argument.uniform_getD hargs 0)
  · exact fun _ _ hargs => nth_local (Argument.uniform_getD hargs 0)
  · exact fun _ _ hargs => getField_local (Argument.uniform_getD hargs 0)
  · exact fun _ _ hargs => named_local hargs
  · exact fun _ _ hargs => merge_local hargs
  · exact fun _ _ hargs => named_local hargs
  · exact fun _ _ hargs => named_local hargs

end Access

namespace Range

theorem slice_local (hargs : ∀ a ∈ args, a.Uniform source names) :
    (slice receiver args).Local source names := by
  refine Uniform.bind (Uniform.check _) fun rows _ => ?_
  refine Uniform.bind (Uniform.resolveAll hargs) fun vs _ => ?_
  exact Uniform.map (Uniform.check _) fun _ _ => trivial

theorem limit_local (harg : arg.Uniform source names) :
    (limit receiver arg).Local source names := by
  refine Uniform.bind (Uniform.resolve harg) fun v _ => ?_
  refine Uniform.bind (Uniform.check _) fun n _ => ?_
  split
  · exact Uniform.throw_bind
  · exact Uniform.bind (Uniform.check _) fun rows _ => Uniform.pure trivial

theorem count_local : (count receiver).Local source names := by
  unfold count
  split
  · exact Uniform.pure trivial
  · exact Uniform.pure trivial
  · exact Uniform.throw

theorem flags_local {run : Option Value → Eval Value}
    (hrun : (Argument.deferred run).Uniform source names) (rows : List Value) :
    (flags run rows).Local source names := by
  refine Uniform.imp (Uniform.mapM (Q := fun _ => True) fun row _ => ?_) fun _ _ => trivial
  exact Uniform.map (Uniform.ofEval (hrun (some row))) fun _ _ => trivial

theorem offsetsOf_local (harg : arg.Uniform source names) :
    (offsetsOf receiver arg).Local source names := by
  refine Uniform.bind (Uniform.check _) fun rows _ => ?_
  dsimp only
  split
  · rw [offsetsWhere_bind]
    exact Uniform.bind (flags_local harg rows) fun _ _ => Uniform.pure trivial
  · exact Uniform.bind (Uniform.resolve harg) fun _ _ => Uniform.pure trivial

theorem filter_local (harg : arg.Uniform source names) :
    (filter receiver arg).Local source names := by
  refine Uniform.bind (Uniform.check _) fun rows _ => ?_
  split
  · rw [rowsWhere_bind]
    exact Uniform.map (flags_local harg rows) fun _ _ => trivial
  · exact Uniform.map (Uniform.resolve harg) fun _ _ => trivial

theorem orderBy_local (harg : arg.Uniform source names) :
    (orderBy receiver arg).Local source names := by
  refine Uniform.bind (Uniform.resolve harg) fun v _ => ?_
  refine Uniform.bind (Uniform.check _) fun name _ => ?_
  refine Uniform.bind (Uniform.check _) fun rows _ => ?_
  exact Uniform.map (Uniform.check _) fun _ _ => trivial

theorem entries_local : ∀ e ∈ entries, e.implementation.Local source names := by
  simp only [entries, List.forall_mem_cons]
  refine ⟨?_, ?_, ?_, ?_, ?_, ?_, by simp⟩
  · exact fun _ _ hargs => slice_local hargs
  · exact fun _ _ hargs => limit_local (Argument.uniform_getD hargs 0)
  · exact fun _ _ _ => count_local
  · exact fun _ _ hargs => offsetsOf_local (Argument.uniform_getD hargs 0)
  · exact fun _ _ hargs => filter_local (Argument.uniform_getD hargs 0)
  · exact fun _ _ hargs => orderBy_local (Argument.uniform_getD hargs 0)

end Range

namespace Selection

theorem get_local (harg : arg.Uniform source names) : (get receiver arg).Local source names := by
  refine Uniform.bind (Uniform.expectType _) fun _ _ => ?_
  split
  · exact Uniform.throw_bind
  · refine Uniform.bind (Uniform.resolve harg) fun key _ => ?_
    refine Uniform.bind (Uniform.check _) fun _ _ => ?_
    refine Uniform.bind (Uniform.check _) fun rows _ => ?_
    refine Uniform.bind (Uniform.setRowIndex _) fun _ _ => ?_
    exact Uniform.bind (Uniform.setRowId _) fun _ _ => Uniform.pure trivial

theorem getAll_local (hargs : ∀ a ∈ args, a.Uniform source names) :
    (getAll receiver args).Local source names := by
  refine Uniform.bind (Uniform.expectType _) fun _ _ => ?_
  refine Uniform.bind (Uniform.setRowIndex _) fun _ _ => ?_
  refine Uniform.bind (Uniform.setRowId _) fun _ _ => ?_
  refine Uniform.bind (Uniform.resolveAll hargs) fun vs _ => ?_
  refine Uniform.bind (Uniform.check _) fun index _ => ?_
  refine Uniform.bind (Uniform.check _) fun _ _ => ?_
  exact Uniform.map (Uniform.check _) fun _ _ => trivial

theorem entries_local : ∀ e ∈ entries, e.implementation.Local source names := by
  simp only [entries, List.forall_mem_cons]
  refine ⟨?_, ?_, by simp⟩
  · exact fun _ _ hargs => get_local (Argument.uniform_getD hargs 0)
  · exact fun _ _ hargs => getAll_local hargs

end Selection

namespace Mutation

theorem insertRow_local (done : Inserted) (row : Fields) :
    (insertRow done row).Local source names := by
  unfold insertRow
  split
  · split
    · exact Uniform.pure trivial
    · exact Uniform.pure trivial
  · exact Uniform.bind (Uniform.freshKey _) fun _ _ => Uniform.pure trivial

theorem insert_local (receiver : Value) (options : Argument) (harg : arg.Uniform source names) :
    (insert receiver arg options).Local source names := by
  refine Uniform.bind (Uniform.expectType _) fun _ _ => ?_
  refine Uniform.bind (Uniform.resolve harg) fun _ _ => ?_
  refine Uniform.bind (Uniform.check _) fun rows _ => ?_
  refine Uniform.bind Uniform.rows fun live _ => ?_
  have hloop : (rows.foldlM insertRow ⟨live, 0, []⟩).Local source names :=
    Uniform.foldlM trivial fun done _ row _ => insertRow_local done row
  refine Uniform.bind hloop fun done _ => ?_
  exact Uniform.map (Uniform.setRows _) fun _ _ => trivial

theorem applyPatch_local (index : Nat) (patch : Fields) :
    (applyPatch index patch).Local source names := by
  refine Uniform.bind Uniform.rows fun live _ => ?_
  split
  · split
    · exact Uniform.pure trivial
    · exact Uniform.map (Uniform.setRows _) fun _ _ => trivial
  · exact Uniform.pure trivial

theorem updateRow_local (harg : arg.Uniform source names) :
    (updateRow row arg).Local source names := by
  refine Uniform.bind (Uniform.expectType _) fun _ _ => ?_
  split
  · exact Uniform.pure trivial
  · refine Uniform.bind (Uniform.evalRow harg row) fun _ _ => ?_
    refine Uniform.bind (Uniform.check _) fun patch _ => ?_
    refine Uniform.bind (Uniform.locate row) fun found _ => ?_
    split
    · exact Uniform.pure trivial
    · refine Uniform.bind (applyPatch_local _ _) fun outcome _ => ?_
      split
      · exact Uniform.pure trivial
      · exact Uniform.pure trivial
      · exact Uniform.throw

theorem patchRow_local (done : Tally) (row : Value) (patch : Fields) :
    (patchRow done row patch).Local source names := by
  refine Uniform.bind (Uniform.locate row) fun found _ => ?_
  split
  · exact Uniform.pure trivial
  · refine Uniform.bind (applyPatch_local _ _) fun outcome _ => ?_
    split
    · exact Uniform.pure trivial
    · exact Uniform.pure trivial
    · exact Uniform.pure trivial

/-- The patches are built one after the other, then the rows are written. -/
theorem updateRows_local (harg : arg.Uniform source names) :
    (updateRows rows arg).Local source names := by
  refine Uniform.bind Uniform.expectSelection fun _ _ => ?_
  split
  · exact Uniform.pure trivial
  · refine Uniform.bind (Uniform.mapM (Q := fun _ => True) fun row _ => ?_) fun patches _ => ?_
    · exact Uniform.bind (Uniform.evalRow harg row) fun _ _ => Uniform.check _
    · refine Uniform.map (P := fun _ => True) ?_ fun _ _ => trivial
      exact Uniform.foldlM trivial fun done _ pair _ => patchRow_local done pair.1 pair.2

theorem update_local (options : Argument) (harg : arg.Uniform source names) :
    (update receiver arg options).Local source names := by
  unfold update
  split
  · exact Uniform.map (updateRows_local harg) fun _ _ => trivial
  · exact Uniform.map (updateRow_local harg) fun _ _ => trivial

theorem deleteRow_local : (deleteRow row).Local source names := by
  unfold deleteRow
  split
  · exact Uniform.pure trivial
  · refine Uniform.bind (Uniform.expectType _) fun _ _ => ?_
    refine Uniform.bind (Uniform.locate row) fun found _ => ?_
    split
    · exact Uniform.pure trivial
    · refine Uniform.bind Uniform.rows fun live _ => ?_
      refine Uniform.bind (Uniform.setRows _) fun _ _ => ?_
      exact Uniform.map (Uniform.setRowIndex none) fun _ _ => trivial

theorem deleteRows_local : (deleteRows rows).Local source names := by
  refine Uniform.getType_bind (fun c c' h => by rw [h]) fun c => ?_
  split
  · refine Uniform.bind Uniform.rows fun live _ => ?_
    exact Uniform.bind (Uniform.setRows _) fun _ _ => Uniform.pure trivial
  · refine Uniform.bind (Uniform.expectType _) fun _ _ => ?_
    split
    · exact Uniform.pure trivial
    · refine Uniform.bind Uniform.rows fun live _ => ?_
      exact Uniform.bind (Uniform.setRows _) fun _ _ => Uniform.pure trivial

theorem delete_local : (delete receiver).Local source names := by
  unfold delete
  split
  · exact Uniform.map deleteRows_local fun _ _ => trivial
  · exact Uniform.map deleteRow_local fun _ _ => trivial

theorem replaceMissing_local (harg : arg.Uniform source names) :
    (replaceMissing arg).Local source names := by
  refine Uniform.bind (Uniform.resolve harg) fun row _ => ?_
  refine Uniform.bind (Uniform.check _) fun key _ => ?_
  refine Uniform.bind Uniform.rows fun live _ => ?_
  split
  · exact Uniform.pure trivial
  · exact Uniform.map (Uniform.setRows _) fun _ _ => trivial

theorem replaceRow_local (harg : arg.Uniform source names) (done : Tally) (row : Value) :
    (replaceRow arg done row).Local source names := by
  refine Uniform.bind (Uniform.evalRow harg row) fun new _ => ?_
  refine Uniform.bind (Uniform.check _) fun key _ => ?_
  split
  · exact Uniform.pure trivial
  · split
    · exact Uniform.pure trivial
    · refine Uniform.bind (Uniform.locate row) fun found _ => ?_
      split
      · exact Uniform.pure trivial
      · refine Uniform.bind Uniform.rows fun live _ => ?_
        exact Uniform.bind (Uniform.setRows _) fun _ _ => Uniform.pure trivial

theorem replaceRows_local (harg : arg.Uniform source names) (rows : List Value) :
    (replaceRows rows arg).Local source names := by
  refine Uniform.map (P := fun _ => True) ?_ fun _ _ => trivial
  exact Uniform.foldlM trivial fun done _ row _ => replaceRow_local harg done row

theorem replace_local (options : Argument) (harg : arg.Uniform source names) :
    (replace receiver arg options).Local source names := by
  have hreport {x : Act Report} (hx : x.Local source names) :
      (do return (← x).toValue).Local source names := Uniform.map hx fun _ _ => trivial
  refine Uniform.bind Uniform.expectSelection fun _ _ => ?_
  dsimp only
  -- by whether the value is `null`, which deletes, and by the kind of receiver
  split
  · split
    · exact hreport (Uniform.pure trivial)
    · exact hreport deleteRows_local
    · exact hreport deleteRow_local
  · split
    · exact hreport (replaceMissing_local harg)
    · exact hreport (replaceRows_local harg _)
    · exact hreport (replaceRows_local harg _)

/-- No mutation looks at its options. -/
theorem entries_local : ∀ e ∈ entries, e.implementation.Local source names := by
  simp only [entries, List.forall_mem_cons]
  refine ⟨?_, ?_, ?_, ?_, by simp⟩
  · exact fun receiver _ hargs => insert_local receiver .undefined (Argument.uniform_getD hargs 0)
  · exact fun _ _ hargs => update_local .undefined (Argument.uniform_getD hargs 0)
  · exact fun _ _ hargs => replace_local .undefined (Argument.uniform_getD hargs 0)
  · exact fun _ _ _ => delete_local

end Mutation

/-- Whatever the action, it sees no table but those of its context and its arguments. -/
theorem local_of_mem_catalogue {e : Entry} (he : e ∈ catalogue) :
    e.implementation.Local source names := by
  simp only [catalogue, List.cons_append, List.mem_cons, List.mem_append] at he
  rcases he with rfl | ((((he | he) | he) | he) | he) | he
  · exact fun _ _ _ => Uniform.pure trivial
  · exact Arithmetic.entries_local e he
  · exact Comparison.entries_local e he
  · exact Access.entries_local e he
  · exact Range.entries_local e he
  · exact Selection.entries_local e he
  · exact Mutation.entries_local e he

end

end TableQuery
