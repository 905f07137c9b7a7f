import Mathlib.Data.List.Perm.Subperm
import TableQuery.Action.Catalogue
import TableQuery.Proofs.Action.Asking
import TableQuery.Proofs.Keeps
import TableQuery.Proofs.Value.Fields
import TableQuery.Term.Scope

namespace TableQuery

def RowsOf (receiver result : Value) : Prop :=
  ∃ rows kept, receiver = .array rows ∧ result = .array kept ∧ kept.Subperm rows

def RowOf (receiver result : Value) : Prop := ∃ rows, receiver = .array rows ∧ result ∈ rows

section

variable {V : Value → Prop} (hV : Value.Hereditary V) {receiver result : Value}

include hV

theorem RowsOf.hereditary (h : RowsOf receiver result) (hreceiver : V receiver) : V result := by
  obtain ⟨rows, kept, rfl, rfl, hsub⟩ := h
  exact hV.array fun row hrow => hV.item hreceiver (hsub.subset hrow)

theorem RowOf.hereditary (h : RowOf receiver result) (hreceiver : V receiver) : V result := by
  obtain ⟨rows, rfl, hmem⟩ := h
  exact hV.item hreceiver hmem

end

namespace Sequence

theorem mapM_asFields {rows : List Value} {fields : List Fields}
    (h : rows.mapM Value.asFields = .ok fields) : rows = fields.map Value.object := by
  induction rows generalizing fields with
  | nil =>
    rw [List.mapM_nil] at h
    cases h
    rfl
  | cons row rest ih =>
    rw [List.mapM_cons] at h
    cases row <;> try cases h
    next first =>
    cases hrest : rest.mapM Value.asFields with
    | error e =>
      rw [hrest] at h
      cases h
    | ok others =>
      rw [hrest] at h
      cases h
      rw [List.map_cons, ← ih hrest]

/-- The check of rows passes, or it fails at a row that is no object. -/
theorem mapM_asFields_cases (rows : List Value) :
    ((∀ row ∈ rows, row.isObject = true) ∧ ∃ fields, rows.mapM Value.asFields = .ok fields) ∨
      ∃ row ∈ rows, row.isObject = false ∧
        rows.mapM Value.asFields = .error (.kindMismatch .object row.kind) := by
  induction rows with
  | nil => exact .inl ⟨fun row hrow => absurd hrow List.not_mem_nil, [], rfl⟩
  | cons row rest ih =>
    rw [List.mapM_cons]
    by_cases hrow : row.isObject = true
    · cases row <;> try cases hrow
      next fields =>
      rcases ih with ⟨hall, others, hothers⟩ | ⟨other, hmem, hother, herror⟩
      · refine .inl ⟨List.forall_mem_cons.mpr ⟨rfl, hall⟩, fields :: others, ?_⟩
        rw [hothers]
        rfl
      · refine .inr ⟨other, List.mem_cons_of_mem _ hmem, hother, ?_⟩
        rw [herror]
        rfl
    · refine .inr ⟨row, List.mem_cons_self, by simpa using hrow, ?_⟩
      cases row <;> first | rfl | exact absurd rfl hrow

/-- What an operation on rows of objects does after it has checked that they are objects. -/
theorem exists_of_mapM_asFields {α : Type} {rows : List Value} {f : List Fields → α} {result : α}
    (h : (do return f (← rows.mapM Value.asFields) : Except Error α) = .ok result) :
    ∃ fields, rows = fields.map Value.object ∧ result = f fields := by
  cases hrows : rows.mapM Value.asFields with
  | error e =>
    rw [hrows] at h
    cases h
  | ok fields =>
    rw [hrows] at h
    cases h
    exact ⟨fields, mapM_asFields hrows, rfl⟩

theorem nth_mem {items : List Value} {index : Int} {item : Value}
    (h : nth items index = .ok item) : item ∈ items := by
  unfold nth at h
  dsimp only at h
  split at h
  · cases h
  · split at h
    · next hget =>
      cases h
      exact List.mem_of_getElem? hget
    · cases h

theorem slice_sublist {items args kept : List Value} (h : slice items args = .ok kept) :
    kept.Sublist items := by
  have hbetween (bounds : SliceBounds) (start : Int) (stop : Option Int) :
      (sliceBetween bounds start stop items).Sublist items :=
    (List.drop_sublist _ _).trans (List.take_sublist _ _)
  unfold slice at h
  dsimp only at h
  split at h
  · cases h
  · obtain ⟨start, -, h⟩ := exists_of_bind_ok h
    split at h
    all_goals
      obtain ⟨stop, -, h⟩ := exists_of_bind_ok h
      cases h
      exact hbetween _ _ _

theorem hasFields_sublist {names : List String} {rows kept : List Value}
    (h : hasFields names rows = .ok kept) : kept.Sublist rows := by
  obtain ⟨fields, rfl, rfl⟩ := exists_of_mapM_asFields h
  exact List.filter_sublist.map _

theorem orderBy_perm {name : String} {rows sorted : List Value}
    (h : orderBy name rows = .ok sorted) : sorted.Perm rows := by
  obtain ⟨_, -, rfl⟩ := exists_of_mapM_asFields (f := fun _ => rows.mergeSort _) h
  exact List.mergeSort_perm rows _

end Sequence

namespace Access

theorem items_eq {v : Value} {rows : List Value} (h : items v = .ok rows) : v = .array rows := by
  cases v <;> cases h
  rfl

end Access

section

variable {I : State → Prop} {V : Value → Prop} {type : TypeTag} {table : Option String}
  {receiver : Value} {arg : Argument} {args : List Argument}

theorem items_keeps : Keeps (Framed I type table) (fun rows => receiver = .array rows)
    (ofExcept (Access.items receiver) : Act (List Value)) :=
  Keeps.ofExcept fun _ h => Access.items_eq h

namespace Range

theorem slice_keeps (hargs : ∀ a ∈ args, a.Good I V) :
    Keeps (Framed I type table) (RowsOf receiver) (slice receiver args) := by
  refine Keeps.bind items_keeps fun rows hrows => ?_
  refine Keeps.bind (Keeps.resolveAll hargs) fun vs _ => ?_
  refine Keeps.map (Keeps.ofExcept fun kept h => h) fun kept h => ?_
  exact ⟨rows, kept, hrows, rfl, (Sequence.slice_sublist h).subperm⟩

theorem limit_keeps (harg : arg.Good I V) :
    Keeps (Framed I type table) (RowsOf receiver) (limit receiver arg) := by
  refine Keeps.bind (Keeps.resolve harg) fun v _ => ?_
  refine Keeps.bind (Keeps.ofExcept fun _ _ => trivial) fun n (_ : True) => ?_
  split
  · exact Keeps.bind (P := fun _ => False) Keeps.throw fun _ h => h.elim
  · refine Keeps.bind items_keeps fun rows hrows => Keeps.pure ?_
    exact ⟨rows, _, hrows, rfl, (List.take_sublist _ _).subperm⟩

theorem flags_keeps {run : Option Value → Eval Value} {rows : List Value}
    (hrun : (Argument.deferred run).Good I V) (hrows : ∀ row ∈ rows, V row) :
    Keeps (Framed I type table) (fun _ => True) (flags run rows) := by
  refine Keeps.imp (Keeps.mapM (Q := fun _ => True) fun row hrow => ?_) fun _ _ => trivial
  refine Keeps.map (Keeps.ofEval (hrun (some row) ?_)) fun _ _ => trivial
  simpa using hrows row hrow

theorem flagged_sublist {α : Type} (items : List α) (flags : List Bool) :
    (flagged items flags).Sublist items := by
  induction items generalizing flags with
  | nil => simp [flagged]
  | cons item rest ih =>
    rcases flags with _ | ⟨flag, flags⟩
    · simp [flagged]
    · cases flag
      · exact (ih flags).cons item
      · exact (ih flags).cons_cons item

theorem keepConstant_sublist (predicate : Value) (rows : List Value) :
    (keepConstant predicate rows).Sublist rows := by
  unfold keepConstant
  split
  · exact List.filter_sublist
  · split
    · exact List.Sublist.refl _
    · exact List.nil_sublist _

theorem filter_keeps (hV : Value.Hereditary V) (hreceiver : V receiver) (harg : arg.Good I V) :
    Keeps (Framed I type table) (RowsOf receiver) (filter receiver arg) := by
  refine Keeps.bind items_keeps fun rows hrows => ?_
  subst hrows
  split
  · next run =>
    rw [rowsWhere_bind]
    refine Keeps.map (flags_keeps harg fun row hrow => hV.item hreceiver hrow) fun fs _ => ?_
    exact ⟨rows, _, rfl, rfl, (flagged_sublist rows fs).subperm⟩
  · refine Keeps.map (Keeps.resolve harg) fun predicate _ => ?_
    exact ⟨rows, _, rfl, rfl, (keepConstant_sublist predicate rows).subperm⟩

theorem orderBy_keeps (harg : arg.Good I V) :
    Keeps (Framed I type table) (RowsOf receiver) (orderBy receiver arg) := by
  refine Keeps.bind (Keeps.resolve harg) fun v _ => ?_
  refine Keeps.bind (Keeps.ofExcept fun _ _ => trivial) fun name (_ : True) => ?_
  refine Keeps.bind items_keeps fun rows hrows => ?_
  refine Keeps.map (Keeps.ofExcept fun sorted h => h) fun sorted h => ?_
  exact ⟨rows, sorted, hrows, rfl, (Sequence.orderBy_perm h).subperm⟩

theorem offsetsOf_keeps (hV : Value.Hereditary V) (hreceiver : V receiver) (harg : arg.Good I V) :
    Keeps (Framed I type table) V (offsetsOf receiver arg) := by
  have hoffsets (offsets : List Nat) : V (.array (offsets.map .ofNat)) := by
    refine hV.array fun v hv => ?_
    obtain ⟨n, -, rfl⟩ := List.mem_map.mp hv
    exact hV.number _
  refine Keeps.bind items_keeps fun rows hrows => ?_
  subst hrows
  dsimp only
  split
  · rw [offsetsWhere_bind]
    refine Keeps.bind (flags_keeps harg fun row hrow => hV.item hreceiver hrow) fun fs _ => ?_
    exact Keeps.pure (hoffsets _)
  · exact Keeps.bind (Keeps.resolve harg) fun needle _ => Keeps.pure (hoffsets _)

theorem count_keeps (hV : Value.Hereditary V) :
    Keeps (Framed I type table) V (count receiver) := by
  unfold count
  split
  · exact Keeps.pure (hV.number _)
  · exact Keeps.pure (hV.number _)
  · exact Keeps.throw

theorem entries_keep (hV : Value.Hereditary V) : ∀ e ∈ entries, e.implementation.Keeps I V := by
  have hgood {args : List Argument} (h : ∀ a ∈ args, a.Good I V) := Argument.good_getD h 0
  simp only [entries, List.forall_mem_cons]
  refine ⟨?_, ?_, ?_, ?_, ?_, ?_, by simp⟩
  · exact fun _ _ _ _ hv h => (slice_keeps h).imp fun _ hr => hr.hereditary hV hv
  · exact fun _ _ _ _ hv h => (limit_keeps (hgood h)).imp fun _ hr => hr.hereditary hV hv
  · exact fun _ _ _ _ _ _ => count_keeps hV
  · exact fun _ _ _ _ hv h => offsetsOf_keeps hV hv (hgood h)
  · exact fun _ _ _ _ hv h => (filter_keeps hV hv (hgood h)).imp fun _ hr => hr.hereditary hV hv
  · exact fun _ _ _ _ hv h => (orderBy_keeps (hgood h)).imp fun _ hr => hr.hereditary hV hv

end Range

namespace Access

theorem onRows_ok {accepted : Accepted} {ofRows : List Value → Except Error Value}
    {ofObject : Fields → Value} {v w : Value} (h : onRows accepted ofRows ofObject v = .ok w) :
    (∃ rows, v = .array rows ∧ ofRows rows = .ok w) ∨ ∃ fields, v = .object fields ∧
      w = ofObject fields := by
  cases v <;> simp only [onRows] at h
  · cases h
  · cases h
  · cases h
  · cases h
  · exact .inl ⟨_, rfl, h⟩
  · cases h
    exact .inr ⟨_, rfl, rfl⟩

theorem map_array_ok {x : Except Error (List Value)} {w : Value} (h : Value.array <$> x = .ok w) :
    ∃ rows, x = .ok rows ∧ w = .array rows := by
  cases x with
  | error e => cases h
  | ok rows =>
    cases h
    exact ⟨rows, rfl, rfl⟩

theorem nthRow_keeps {index : Value} :
    Keeps (Framed I type table) (RowOf receiver) (nthRow receiver index) := by
  refine Keeps.bind (Keeps.ofExcept fun _ _ => trivial) fun n (_ : True) => ?_
  refine Keeps.bind Keeps.getContext fun c _ => ?_
  split
  · exact Keeps.bind (P := fun _ => False) Keeps.throw fun _ h => h.elim
  · refine Keeps.bind items_keeps fun rows hrows => ?_
    refine Keeps.bind (Keeps.ofExcept fun row h => Sequence.nth_mem h) fun row hrow => ?_
    exact Keeps.bind (Keeps.bindRow _ _) fun _ _ => Keeps.pure ⟨rows, hrows, hrow⟩

theorem nth_keeps (harg : arg.Good I V) :
    Keeps (Framed I type table) (RowOf receiver) (nth receiver arg) :=
  Keeps.bind (Keeps.resolve harg) fun _ _ => nthRow_keeps

section

variable (hV : Value.Hereditary V) (hreceiver : V receiver)

include hV hreceiver

theorem fieldOf_hereditary {accepted : Accepted} {name : String} {w : Value}
    (h : fieldOf accepted name receiver = .ok w) : V w := by
  rcases onRows_ok h with ⟨rows, rfl, hrows⟩ | ⟨fields, rfl, rfl⟩
  · obtain ⟨found, hfound, rfl⟩ := map_array_ok hrows
    obtain ⟨objects, rfl, rfl⟩ := Sequence.exists_of_mapM_asFields hfound
    refine hV.array fun v hv => ?_
    obtain ⟨fields, hfields, hget⟩ := List.mem_filterMap.mp hv
    exact hV.get? (hV.item hreceiver (List.mem_map_of_mem hfields)) hget
  · unfold Fields.field
    cases hget : Fields.get? name fields with
    | none => exact hV.null
    | some v => exact hV.get? hreceiver hget

theorem hasFields_hereditary {names : List String} {w : Value}
    (h : hasFields names receiver = .ok w) : V w := by
  rcases onRows_ok h with ⟨rows, rfl, hrows⟩ | ⟨fields, rfl, rfl⟩
  · obtain ⟨kept, hkept, rfl⟩ := map_array_ok hrows
    have hsub := (Sequence.hasFields_sublist hkept).subset
    exact hV.array fun row hrow => hV.item hreceiver (hsub hrow)
  · exact hV.bool _

theorem pluck_hereditary {names : List String} {w : Value}
    (h : pluck names receiver = .ok w) : V w := by
  rcases onRows_ok h with ⟨rows, rfl, hrows⟩ | ⟨fields, rfl, rfl⟩
  · obtain ⟨plucked, hplucked, rfl⟩ := map_array_ok hrows
    obtain ⟨objects, rfl, rfl⟩ := Sequence.exists_of_mapM_asFields hplucked
    refine hV.array fun v hv => ?_
    obtain ⟨fields, hfields, rfl⟩ := List.mem_map.mp hv
    exact hV.pluck names (hV.item hreceiver (List.mem_map_of_mem hfields))
  · exact hV.pluck names hreceiver

theorem without_hereditary {names : List String} {w : Value}
    (h : without names receiver = .ok w) : V w := by
  rcases onRows_ok h with ⟨rows, rfl, hrows⟩ | ⟨fields, rfl, rfl⟩
  · obtain ⟨rest, hrest, rfl⟩ := map_array_ok hrows
    obtain ⟨objects, rfl, rfl⟩ := Sequence.exists_of_mapM_asFields hrest
    refine hV.array fun v hv => ?_
    obtain ⟨fields, hfields, rfl⟩ := List.mem_map.mp hv
    exact hV.filter _ (hV.item hreceiver (List.mem_map_of_mem hfields))
  · exact hV.filter _ hreceiver

theorem getField_keeps (harg : arg.Good I V) :
    Keeps (Framed I type table) V (getField receiver arg) := by
  refine Keeps.bind (Keeps.resolve harg) fun v _ => ?_
  refine Keeps.bind (Keeps.ofExcept fun _ _ => trivial) fun name (_ : True) => ?_
  exact Keeps.ofExcept fun w h => fieldOf_hereditary hV hreceiver h

theorem bracket_keeps (harg : arg.Good I V) :
    Keeps (Framed I type table) V (bracket receiver arg) := by
  refine Keeps.bind (Keeps.resolve harg) fun key _ => ?_
  split
  · exact nthRow_keeps.imp fun row h => h.hereditary hV hreceiver
  · exact Keeps.ofExcept fun w h => fieldOf_hereditary hV hreceiver h
  · exact Keeps.throw

/-- Each argument is merged into the row as it is by then. -/
theorem mergeRow_keeps (hargs : ∀ a ∈ args, a.Good I V) :
    Keeps (Framed I type table) V (mergeRow args receiver) := by
  refine Keeps.foldlM hreceiver fun row hrow a ha => ?_
  exact Keeps.map (Keeps.evalRow (hargs a ha) hrow) fun v hv => hV.merge hrow hv

theorem merge_keeps (hargs : ∀ a ∈ args, a.Good I V) :
    Keeps (Framed I type table) V (merge receiver args) := by
  unfold merge
  split
  · next rows =>
    refine Keeps.map (Keeps.mapM fun row hrow => ?_) fun merged hmerged => hV.array hmerged
    refine Keeps.bind (Keeps.ofExcept fun _ _ => trivial) fun _ (_ : True) => ?_
    exact mergeRow_keeps hV (hV.item hreceiver hrow) hargs
  · exact mergeRow_keeps hV hreceiver hargs
  · exact Keeps.throw

end

theorem named_keeps {op : List String → Value → Except Error Value} {Q : Value → Prop}
    (hop : ∀ names w, op names receiver = .ok w → Q w) (hargs : ∀ a ∈ args, a.Good I V) :
    Keeps (Framed I type table) Q (named op receiver args) := by
  refine Keeps.bind (Keeps.resolveAll hargs) fun vs _ => ?_
  refine Keeps.bind (Keeps.ofExcept fun _ _ => trivial) fun names (_ : True) => ?_
  exact Keeps.ofExcept fun w h => hop names w h

theorem entries_keep (hV : Value.Hereditary V) : ∀ e ∈ entries, e.implementation.Keeps I V := by
  have hgood {args : List Argument} (h : ∀ a ∈ args, a.Good I V) := Argument.good_getD h 0
  simp only [entries, List.forall_mem_cons]
  refine ⟨?_, ?_, ?_, ?_, ?_, ?_, ?_, by simp⟩
  · exact fun _ _ _ _ hv h => bracket_keeps hV hv (hgood h)
  · exact fun _ _ _ _ hv h => (nth_keeps (hgood h)).imp fun _ hr => hr.hereditary hV hv
  · exact fun _ _ _ _ hv h => getField_keeps hV hv (hgood h)
  · exact fun _ _ _ _ hv h => named_keeps (fun _ _ => hasFields_hereditary hV hv) h
  · exact fun _ _ _ _ hv h => merge_keeps hV hv h
  · exact fun _ _ _ _ hv h => named_keeps (fun _ _ => pluck_hereditary hV hv) h
  · exact fun _ _ _ _ hv h => named_keeps (fun _ _ => without_hereditary hV hv) h

end Access

namespace Selection

theorem expectTable_keeps :
    Keeps (Framed I type table) (fun _ => type = .table) (Act.ask (Context.expectType .table)) := by
  refine Keeps.ask fun c hc _ h => ?_
  unfold Context.expectType at h
  split at h
  · next heq => exact hc.type_eq.symm.trans heq
  · cases h

theorem get_keeps (harg : arg.Good I V) :
    Keeps (Framed I type table) (fun v => type = .table ∧ (v = .null ∨ RowOf receiver v))
      (get receiver arg) := by
  refine Keeps.bind expectTable_keeps fun _ htable => ?_
  split
  · exact Keeps.bind (P := fun _ => False) Keeps.throw fun _ h => h.elim
  · refine Keeps.bind (Keeps.resolve harg) fun key _ => ?_
    refine Keeps.bind (Keeps.ofExcept fun _ _ => trivial) fun _ (_ : True) => ?_
    refine Keeps.bind items_keeps fun rows hrows => ?_
    refine Keeps.bind (Keeps.setRowIndex _) fun _ _ => ?_
    refine Keeps.bind (Keeps.setRowId _) fun _ _ => Keeps.pure ?_
    cases hrow : (keyPosition key rows).bind fun i => rows[i]? with
    | none => exact ⟨htable, .inl rfl⟩
    | some row =>
      obtain ⟨i, -, hi⟩ := Option.bind_eq_some_iff.mp hrow
      exact ⟨htable, .inr ⟨rows, hrows, List.mem_of_getElem? hi⟩⟩

theorem getAll_keeps (hargs : ∀ a ∈ args, a.Good I V) :
    Keeps (Framed I type table) (fun v => type = .table ∧ RowsOf receiver v)
      (getAll receiver args) := by
  refine Keeps.bind expectTable_keeps fun _ htable => ?_
  refine Keeps.bind (Keeps.setRowIndex _) fun _ _ => ?_
  refine Keeps.bind (Keeps.setRowId _) fun _ _ => ?_
  refine Keeps.bind (Keeps.resolveAll hargs) fun vs _ => ?_
  refine Keeps.bind (Keeps.ofExcept fun _ _ => trivial) fun index (_ : True) => ?_
  refine Keeps.bind (Keeps.ofExcept fun _ _ => trivial) fun _ (_ : True) => ?_
  refine Keeps.map items_keeps fun rows hrows => ?_
  exact ⟨htable, rows, _, hrows, rfl, List.filter_sublist.subperm⟩

theorem entries_keep (hV : Value.Hereditary V) : ∀ e ∈ entries, e.implementation.Keeps I V := by
  simp only [entries, List.forall_mem_cons]
  refine ⟨?_, ?_, by simp⟩
  · refine fun _ _ _ _ hv h => (get_keeps (Argument.good_getD h 0)).imp fun v hr => ?_
    rcases hr.2 with rfl | hrow
    · exact hV.null
    · exact hrow.hereditary hV hv
  · exact fun _ _ _ _ hv h => (getAll_keeps h).imp fun _ hr => hr.2.hereditary hV hv

end Selection

namespace Arithmetic

theorem foldNumbers_hereditary (hV : Value.Hereditary V) {op : Binary64 → Binary64 → Binary64}
    {vs : List Value} {w : Value} (h : foldNumbers op receiver vs = .ok w) : V w := by
  obtain ⟨first, -, h⟩ := exists_of_bind_ok h
  obtain ⟨total, -, h⟩ := exists_of_bind_ok h
  unfold Binary64.toValue at h
  split at h
  · split at h
    all_goals
      cases h
      exact hV.number _
  · cases h

theorem sum_hereditary (hV : Value.Hereditary V) (hreceiver : V receiver) {vs : List Value}
    (hvs : ∀ v ∈ vs, V v) {w : Value} (h : sum receiver vs = .ok w) : V w := by
  obtain ⟨-, -, h⟩ := exists_of_bind_ok h
  split at h
  · cases h
    refine hV.array fun v hv => ?_
    rcases List.mem_append.mp hv with hmem | hmem
    · exact hV.item hreceiver hmem
    · obtain ⟨arg, harg, hv⟩ := List.mem_flatMap.mp hmem
      split at hv
      · exact hV.item (hvs _ harg) hv
      · simp at hv
  · cases h
    exact hV.string _
  · exact foldNumbers_hereditary hV h

theorem numeric_keeps (hV : Value.Hereditary V) {op : Binary64 → Binary64 → Binary64}
    (hargs : ∀ a ∈ args, a.Good I V) :
    Keeps (Framed I type table) V (numeric op receiver args) :=
  Keeps.bind (Keeps.resolveAll hargs) fun _ _ =>
    Keeps.ofExcept fun _ h => foldNumbers_hereditary hV h

theorem add_keeps (hV : Value.Hereditary V) (hreceiver : V receiver)
    (hargs : ∀ a ∈ args, a.Good I V) :
    Keeps (Framed I type table) V (add receiver args) := by
  have hsum : Keeps (Framed I type table) V
      (do ofExcept (sum receiver (← Act.resolveAll args)) : Act Value) :=
    Keeps.bind (Keeps.resolveAll hargs) fun vs hvs =>
      Keeps.ofExcept fun w h => sum_hereditary hV hreceiver hvs h
  cases receiver <;> first | exact hsum | exact Keeps.throw

theorem entries_keep (hV : Value.Hereditary V) : ∀ e ∈ entries, e.implementation.Keeps I V := by
  simp only [entries, List.forall_mem_cons]
  refine ⟨?_, ?_, ?_, ?_, by simp⟩
  · exact fun _ _ _ _ hv h => add_keeps hV hv h
  all_goals exact fun _ _ _ _ _ h => numeric_keeps hV h

end Arithmetic

namespace Comparison

theorem entries_keep (hV : Value.Hereditary V) : ∀ e ∈ entries, e.implementation.Keeps I V := by
  simp only [entries, List.forall_mem_cons]
  refine ⟨?_, ?_, ?_, ?_, ?_, ?_, by simp⟩
  all_goals
    intro receiver args type table _ hargs
    exact Keeps.map (Keeps.resolveAll hargs) fun _ _ => hV.bool _

end Comparison

/-- The names of the actions outside of the mutations are not among those that write. -/
theorem mutation_or_not_writes {e : Entry} (he : e ∈ catalogue) :
    e ∈ Mutation.entries ∨ e.name ∉ Term.writers := by
  rcases List.mem_append.mp he with hread | hwrite
  · right
    have hnames : ∀ e ∈ ⟨"typeOf", .none, .datum, .nullary typeOf⟩ :: Arithmetic.entries ++
        Comparison.entries ++ Access.entries ++ Range.entries ++ Selection.entries,
        e.name ∉ Term.writers := by decide
    exact hnames e hread
  · exact .inl hwrite

/-- Actions that do not write keep what their arguments keep. -/
theorem keeps_of_not_writes (hV : Value.Hereditary V) {e : Entry} (he : e ∈ catalogue)
    (hread : e.name ∉ Term.writers) : e.implementation.Keeps I V := by
  simp only [catalogue, List.cons_append, List.mem_cons, List.mem_append] at he
  rcases he with rfl | ((((he | he) | he) | he) | he) | he
  · exact fun _ _ _ _ _ _ => Keeps.pure (hV.string _)
  · exact Arithmetic.entries_keep hV e he
  · exact Comparison.entries_keep hV e he
  · exact Access.entries_keep hV e he
  · exact Range.entries_keep hV e he
  · exact Selection.entries_keep hV e he
  · exfalso
    simp only [Mutation.entries, List.mem_cons, List.not_mem_nil, or_false] at he
    rcases he with rfl | rfl | rfl | rfl <;> exact hread (by decide)

end

end TableQuery
