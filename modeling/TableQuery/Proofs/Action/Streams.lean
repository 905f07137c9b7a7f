import TableQuery.Proofs.Action.Reading
import TableQuery.Proofs.Relates

namespace TableQuery

def Implementation.Oblivious (s : State) (i : Implementation) : Prop :=
  ∀ receiver args type type' table table', SameStream type type' table table' →
    (∀ a ∈ args, a.Leaves s) → (i.call receiver args).SameIn s type type' table table'

section

variable {s : State} {type type' : TypeTag} {table table' : Option String} {receiver : Value}
  {arg : Argument} {args : List Argument}

/-- Whether a row can be looked for depends on the table only. -/
theorem Relates.locate (row : Value) :
    Relates (FramedAt s type table) (FramedAt s type' table) (fun _ _ => True)
      (Act.ask (Context.locate row)) (Act.ask (Context.locate row)) := by
  apply Relates.ask
  intro c c' hc hc'
  have hrows : Agree Eq c.rows c'.rows := by
    unfold Context.rows Context.tableName
    rw [hc.table_eq, hc'.table_eq, hc.state, hc'.state]
    cases table with
    | none => exact .error
    | some name => exact .refl (fun _ => rfl) _
  exact hrows.bind fun _ _ _ => .ok trivial

theorem Relates.bindRow (hsame : SameStream type type' table table') (row : Value)
    (position : Nat) :
    Relates (FramedAt s type table) (FramedAt s type' table') (fun _ _ => True)
      (Act.bindRow row position) (Act.bindRow row position) := by
  refine Relates.bind Relates.getContext fun c c' hc => ?_
  rw [hc.1, hc.2]
  rcases hsame with ⟨rfl, rfl⟩ | ⟨hleft, hright⟩
  · split
    · refine Relates.bind (Relates.setRowIndex _ _) fun _ _ _ => ?_
      refine Relates.bind (Relates.locate row) fun index index' _ => ?_
      refine Relates.bind (Relates.setRowIndex index index') fun _ _ _ => ?_
      exact Relates.setRowId _ _
    · exact Relates.pure trivial
  · rw [hleft, hright]
    exact Relates.pure trivial

namespace Arithmetic

theorem numeric_oblivious {op : Binary64 → Binary64 → Binary64} (hargs : ∀ a ∈ args, a.Leaves s) :
    (numeric op receiver args).SameIn s type type' table table' :=
  Relates.bind_eq (Relates.resolveAll hargs) fun _ => Relates.ofExcept_eq _

theorem add_oblivious (hargs : ∀ a ∈ args, a.Leaves s) :
    (add receiver args).SameIn s type type' table table' := by
  have hsum (v : Value) : Act.SameIn s type type' table table'
      (do ofExcept (sum v (← Act.resolveAll args)) : Act Value) :=
    Relates.bind_eq (Relates.resolveAll hargs) fun _ => Relates.ofExcept_eq _
  cases receiver with
  | null => exact Relates.throw
  | bool b => exact Relates.throw
  | number n => exact hsum _
  | string text => exact hsum _
  | array items => exact hsum _
  | object fields => exact Relates.throw

theorem entries_oblivious : ∀ e ∈ entries, e.implementation.Oblivious s := by
  simp only [entries, List.forall_mem_cons]
  refine ⟨?_, ?_, ?_, ?_, by simp⟩
  · exact fun _ _ _ _ _ _ _ hargs => add_oblivious hargs
  all_goals exact fun _ _ _ _ _ _ _ hargs => numeric_oblivious hargs

end Arithmetic

theorem Comparison.entries_oblivious : ∀ e ∈ entries, e.implementation.Oblivious s := by
  simp only [entries, List.forall_mem_cons]
  refine ⟨?_, ?_, ?_, ?_, ?_, ?_, by simp⟩
  all_goals
    intro receiver args type type' table table' _ hargs
    exact Relates.bind_eq (Relates.resolveAll hargs) fun _ => Relates.pure rfl

namespace Access

/-- A row is picked by its position; only the last row of a stream may be counted from its end. -/
theorem nthRow_oblivious (hsame : SameStream type type' table table') (index : Value) :
    (nthRow receiver index).SameIn s type type' table table' := by
  refine Relates.bind_eq (Relates.ofExcept_eq _) fun n => ?_
  refine Relates.bind Relates.getContext fun c c' hc => ?_
  rw [hc.1, hc.2, hsame.isStream_eq]
  -- only here the context is looked at: an index from the end of a stream is refused
  split
  · exact Relates.bind (R := fun _ _ => False) Relates.throw fun _ _ h => h.elim
  · refine Relates.bind_eq (Relates.ofExcept_eq _) fun rows => ?_
    refine Relates.bind_eq (Relates.ofExcept_eq _) fun row => ?_
    exact Relates.bind (Relates.bindRow hsame _ _) fun _ _ _ => Relates.pure rfl

theorem bracket_oblivious (hsame : SameStream type type' table table')
    (harg : arg.Good (fun state => state = s) fun _ => True) :
    (bracket receiver arg).SameIn s type type' table table' := by
  refine Relates.bind_eq (Relates.resolve harg) fun key => ?_
  split
  · exact nthRow_oblivious hsame _
  · exact Relates.ofExcept_eq _
  · exact Relates.throw

theorem nth_oblivious (hsame : SameStream type type' table table')
    (harg : arg.Good (fun state => state = s) fun _ => True) :
    (nth receiver arg).SameIn s type type' table table' :=
  Relates.bind_eq (Relates.resolve harg) fun _ => nthRow_oblivious hsame _

theorem getField_oblivious (harg : arg.Good (fun state => state = s) fun _ => True) :
    (getField receiver arg).SameIn s type type' table table' := by
  refine Relates.bind_eq (Relates.resolve harg) fun key => ?_
  refine Relates.bind_eq (Relates.ofExcept_eq _) fun name => ?_
  exact Relates.ofExcept_eq _

theorem named_oblivious {op : List String → Value → Except Error Value}
    (hargs : ∀ a ∈ args, a.Leaves s) :
    (named op receiver args).SameIn s type type' table table' := by
  refine Relates.bind_eq (Relates.resolveAll hargs) fun vs => ?_
  refine Relates.bind_eq (Relates.ofExcept_eq _) fun names => ?_
  exact Relates.ofExcept_eq _

theorem mergeRow_oblivious (hargs : ∀ a ∈ args, a.Leaves s)
    (row : Value) :
    (mergeRow args row).SameIn s type type' table table' := by
  apply Relates.foldlM rfl
  rintro merged _ rfl a ha
  exact Relates.bind_eq (Relates.evalRow (hargs a ha) _) fun _ => Relates.pure rfl

theorem merge_oblivious (hargs : ∀ a ∈ args, a.Leaves s) :
    (merge receiver args).SameIn s type type' table table' := by
  unfold merge
  split
  · refine Relates.bind_eq (Relates.mapM_eq fun row _ => ?_) fun merged => Relates.pure rfl
    exact Relates.bind_eq (Relates.ofExcept_eq _) fun _ => mergeRow_oblivious hargs row
  · exact mergeRow_oblivious hargs _
  · exact Relates.throw

theorem entries_oblivious : ∀ e ∈ entries, e.implementation.Oblivious s := by
  have hgood {args : List Argument}
      (h : ∀ a ∈ args, a.Leaves s) := Argument.good_getD h 0
  simp only [entries, List.forall_mem_cons]
  refine ⟨?_, ?_, ?_, ?_, ?_, ?_, ?_, by simp⟩
  · exact fun _ _ _ _ _ _ hsame hargs => bracket_oblivious hsame (hgood hargs)
  · exact fun _ _ _ _ _ _ hsame hargs => nth_oblivious hsame (hgood hargs)
  · exact fun _ _ _ _ _ _ _ hargs => getField_oblivious (hgood hargs)
  · exact fun _ _ _ _ _ _ _ hargs => named_oblivious hargs
  · exact fun _ _ _ _ _ _ _ hargs => merge_oblivious hargs
  · exact fun _ _ _ _ _ _ _ hargs => named_oblivious hargs
  · exact fun _ _ _ _ _ _ _ hargs => named_oblivious hargs

end Access

namespace Range

theorem slice_oblivious (hargs : ∀ a ∈ args, a.Leaves s) :
    (slice receiver args).SameIn s type type' table table' := by
  refine Relates.bind_eq (Relates.ofExcept_eq _) fun rows => ?_
  refine Relates.bind_eq (Relates.resolveAll hargs) fun vs => ?_
  exact Relates.bind_eq (Relates.ofExcept_eq _) fun _ => Relates.pure rfl

theorem limit_oblivious (harg : arg.Good (fun state => state = s) fun _ => True) :
    (limit receiver arg).SameIn s type type' table table' := by
  refine Relates.bind_eq (Relates.resolve harg) fun v => ?_
  refine Relates.bind_eq (Relates.ofExcept_eq _) fun n => ?_
  split
  · exact Relates.bind (R := fun _ _ => False) Relates.throw fun _ _ h => h.elim
  · exact Relates.bind_eq (Relates.ofExcept_eq _) fun rows => Relates.pure rfl

theorem flags_oblivious {run : Option Value → Eval Value}
    (hrun : (Argument.deferred run).Good (fun state => state = s) fun _ => True)
    (rows : List Value) :
    (flags run rows).SameIn s type type' table table' := by
  apply Relates.mapM_eq
  intro row _
  have hrow := Relates.refl (hrun (some row) (by simp))
  exact Relates.bind_eq (Relates.ofEval hrow) fun _ => Relates.pure rfl

theorem offsetsOf_oblivious (harg : arg.Good (fun state => state = s) fun _ => True) :
    (offsetsOf receiver arg).SameIn s type type' table table' := by
  refine Relates.bind_eq (Relates.ofExcept_eq _) fun rows => ?_
  dsimp only
  split
  · rw [offsetsWhere_bind]
    exact Relates.bind_eq (flags_oblivious harg rows) fun _ => Relates.pure rfl
  · exact Relates.bind_eq (Relates.resolve harg) fun _ => Relates.pure rfl

theorem filter_oblivious (harg : arg.Good (fun state => state = s) fun _ => True) :
    (filter receiver arg).SameIn s type type' table table' := by
  refine Relates.bind_eq (Relates.ofExcept_eq _) fun rows => ?_
  split
  · rw [rowsWhere_bind]
    exact Relates.bind_eq (flags_oblivious harg rows) fun _ => Relates.pure rfl
  · exact Relates.bind_eq (Relates.resolve harg) fun _ => Relates.pure rfl

theorem orderBy_oblivious (harg : arg.Good (fun state => state = s) fun _ => True) :
    (orderBy receiver arg).SameIn s type type' table table' := by
  refine Relates.bind_eq (Relates.resolve harg) fun v => ?_
  refine Relates.bind_eq (Relates.ofExcept_eq _) fun name => ?_
  refine Relates.bind_eq (Relates.ofExcept_eq _) fun rows => ?_
  exact Relates.bind_eq (Relates.ofExcept_eq _) fun _ => Relates.pure rfl

theorem count_oblivious :
    (count receiver).SameIn s type type' table table' := by
  unfold count
  split
  · exact Relates.pure rfl
  · exact Relates.pure rfl
  · exact Relates.throw

theorem entries_oblivious : ∀ e ∈ entries, e.implementation.Oblivious s := by
  have hgood {args : List Argument}
      (h : ∀ a ∈ args, a.Leaves s) := Argument.good_getD h 0
  simp only [entries, List.forall_mem_cons]
  refine ⟨?_, ?_, ?_, ?_, ?_, ?_, by simp⟩
  · exact fun _ _ _ _ _ _ _ hargs => slice_oblivious hargs
  · exact fun _ _ _ _ _ _ _ hargs => limit_oblivious (hgood hargs)
  · exact fun _ _ _ _ _ _ _ _ => count_oblivious
  · exact fun _ _ _ _ _ _ _ hargs => offsetsOf_oblivious (hgood hargs)
  · exact fun _ _ _ _ _ _ _ hargs => filter_oblivious (hgood hargs)
  · exact fun _ _ _ _ _ _ _ hargs => orderBy_oblivious (hgood hargs)

end Range

namespace Selection

theorem expectTable_oblivious (hsame : SameStream type type' table table') :
    (Act.ask (Context.expectType .table)).SameIn s type type' table table' := by
  apply Relates.ask
  intro c c' hc hc'
  unfold Context.expectType
  rw [hc.type_eq, hc'.type_eq]
  by_cases htable : type = .table
  · rw [if_pos htable, if_pos (hsame.eq_table_iff.mp htable)]
    exact .ok rfl
  · rw [if_neg htable, if_neg fun h => htable (hsame.eq_table_iff.mpr h)]
    exact .error

theorem get_oblivious (hsame : SameStream type type' table table')
    (harg : arg.Good (fun state => state = s) fun _ => True) :
    (get receiver arg).SameIn s type type' table table' := by
  refine Relates.bind_eq (expectTable_oblivious hsame) fun _ => ?_
  split
  · exact Relates.bind (R := fun _ _ => False) Relates.throw fun _ _ h => h.elim
  · refine Relates.bind_eq (Relates.resolve harg) fun key => ?_
    refine Relates.bind_eq (Relates.ofExcept_eq _) fun _ => ?_
    refine Relates.bind_eq (Relates.ofExcept_eq _) fun rows => ?_
    refine Relates.bind (Relates.setRowIndex _ _) fun _ _ _ => ?_
    exact Relates.bind (Relates.setRowId _ _) fun _ _ _ => Relates.pure rfl

theorem getAll_oblivious (hsame : SameStream type type' table table')
    (hargs : ∀ a ∈ args, a.Leaves s) :
    (getAll receiver args).SameIn s type type' table table' := by
  refine Relates.bind_eq (expectTable_oblivious hsame) fun _ => ?_
  refine Relates.bind (Relates.setRowIndex _ _) fun _ _ _ => ?_
  refine Relates.bind (Relates.setRowId _ _) fun _ _ _ => ?_
  refine Relates.bind_eq (Relates.resolveAll hargs) fun vs => ?_
  refine Relates.bind_eq (Relates.ofExcept_eq _) fun index => ?_
  refine Relates.bind_eq (Relates.ofExcept_eq _) fun _ => ?_
  exact Relates.bind_eq (Relates.ofExcept_eq _) fun rows => Relates.pure rfl

theorem entries_oblivious : ∀ e ∈ entries, e.implementation.Oblivious s := by
  simp only [entries, List.forall_mem_cons]
  refine ⟨?_, ?_, by simp⟩
  · exact fun _ _ _ _ _ _ hsame hargs => get_oblivious hsame (Argument.good_getD hargs 0)
  · exact fun _ _ _ _ _ _ hsame hargs => getAll_oblivious hsame hargs

end Selection

/-- An action that does not write sees of its context only the stream that its receiver is. -/
theorem oblivious_of_not_writes {e : Entry} (he : e ∈ catalogue) (hread : e.name ∉ Term.writers) :
    e.implementation.Oblivious s := by
  simp only [catalogue, List.cons_append, List.mem_cons, List.mem_append] at he
  rcases he with rfl | ((((he | he) | he) | he) | he) | he
  · exact fun _ _ _ _ _ _ _ _ => Relates.pure rfl
  · exact Arithmetic.entries_oblivious e he
  · exact Comparison.entries_oblivious e he
  · exact Access.entries_oblivious e he
  · exact Range.entries_oblivious e he
  · exact Selection.entries_oblivious e he
  · have hwrites : ∀ d ∈ Mutation.entries, d.name ∈ Term.writers := by decide
    exact absurd (hwrites e he) hread

end

end TableQuery
