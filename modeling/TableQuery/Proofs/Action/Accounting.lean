import Mathlib
import TableQuery.Proofs.Action.Atomicity

namespace TableQuery

def Store.size? (store : Store) (name : String) : Option Nat := (store.rows? name).map List.length

def Value.counter (name : String) (report : Value) : Nat :=
  match report.field? name with
  | some (.number (.int n)) => n.toNat
  | _ => 0

theorem Value.counter_of_field {v : Value} {name : String} {n : Option Nat}
    (h : v.field? name = n.map Value.ofNat) : v.counter name = n.getD 0 := by
  unfold counter
  rw [h]
  cases n <;> rfl

namespace Report

theorem counter_errors (r : Report) : r.toValue.counter "errors" = r.errors.getD 0 :=
  Value.counter_of_field (by simp [toValue, Value.field?, Fields.get?_append, Fields.get?_toList])

theorem counter_inserted (r : Report) : r.toValue.counter "inserted" = r.inserted.getD 0 :=
  Value.counter_of_field (by simp [toValue, Value.field?, Fields.get?_append, Fields.get?_toList])

theorem counter_replaced (r : Report) : r.toValue.counter "replaced" = r.replaced.getD 0 :=
  Value.counter_of_field (by simp [toValue, Value.field?, Fields.get?_append, Fields.get?_toList])

theorem counter_unchanged (r : Report) : r.toValue.counter "unchanged" = r.unchanged.getD 0 :=
  Value.counter_of_field (by simp [toValue, Value.field?, Fields.get?_append, Fields.get?_toList])

theorem counter_deleted (r : Report) : r.toValue.counter "deleted" = r.deleted.getD 0 :=
  Value.counter_of_field (by simp [toValue, Value.field?, Fields.get?_append, Fields.get?_toList])

theorem counter_skipped (r : Report) : r.toValue.counter "skipped" = r.skipped.getD 0 :=
  Value.counter_of_field (by simp [toValue, Value.field?, Fields.get?_append, Fields.get?_toList])

end Report

def Settles {σ α : Type} (I : σ → Prop) (Q : α → σ → Prop) (x : ExceptT Error (StateM σ) α) :
    Prop :=
  ∀ s, I s → match StateT.run (ExceptT.run x) s with
    | (.ok a, next) => Q a next
    | (.error _, next) => I next

namespace Settles

variable {σ α β : Type} {I : σ → Prop} {P : α → Prop} {Q : α → σ → Prop} {R : β → σ → Prop}
  {x : ExceptT Error (StateM σ) α} {f : α → ExceptT Error (StateM σ) β}

theorem of_keeps (hx : Keeps I P x) (h : ∀ a s, I s → P a → Q a s) : Settles I Q x := by
  intro s hs
  have hrun := hx s hs
  split
  · next a next heq =>
    rw [heq] at hrun
    exact h a next hrun.1 (hrun.2 a rfl)
  · next e next heq =>
    rw [heq] at hrun
    exact hrun.1

/-- As long as the first part keeps the invariant the second settles the whole. -/
theorem bind (hx : Keeps I P x) (hf : ∀ a, P a → Settles I R (f a)) : Settles I R (x >>= f) := by
  intro s hs
  have hfirst := hx s hs
  rw [run_bind]
  rcases hout : StateT.run (ExceptT.run x) s with ⟨e | a, next⟩
  · rw [hout] at hfirst
    exact hfirst.1
  · rw [hout] at hfirst
    exact hf a (hfirst.2 a rfl) next hfirst.1

theorem map {g : α → β} (hx : Settles I Q x) (h : ∀ a s, Q a s → R (g a) s) :
    Settles I R (do return g (← x)) := by
  intro s hs
  have hfirst := hx s hs
  rw [run_bind]
  rcases hout : StateT.run (ExceptT.run x) s with ⟨e | a, next⟩
  · rw [hout] at hfirst
    exact hfirst
  · rw [hout] at hfirst
    exact h a next hfirst

end Settles

def Sized (t : String) (n : Option Nat) (s : State) : Prop := s.store.size? t = n

def Accounts (t : String) (n : Option Nat) (report : Report) (c : Context) : Prop :=
  (c.state.store.size? t).map (· + report.deleted.getD 0) = n.map (· + report.inserted.getD 0)

section

variable {t : String} {n : Option Nat} {type : TypeTag} {rows live : List Value} {row : Value}

theorem Argument.LeavesTables.sized {a : Argument} (h : ∀ store, a.LeavesTables store) :
    a.Good (Sized t n) fun _ => True := by
  cases a with
  | undefined => trivial
  | datum v => trivial
  | deferred run =>
    intro row _ s hs
    have hstore := h s.store row s rfl
    refine ⟨?_, fun _ _ => trivial⟩
    change ((run row).runFrom s).2.store.size? t = n
    rw [hstore]
    exact hs

theorem Keeps.rows_sized : Keeps (Framed (Sized t n) type (some t))
    (fun live => n = some live.length) (Act.ask Context.rows) := by
  apply Keeps.ask
  intro c hc live hlive
  obtain ⟨name, hname, hrows⟩ := Context.rows_eq_ok.mp hlive
  cases hc.table_eq.symm.trans hname
  have hsize : c.state.store.size? t = n := hc.state
  rw [← hsize, Store.size?, hrows]
  rfl

/-- A position that is found lies in the table. -/
theorem Keeps.locate_sized (row : Value) : Keeps (Framed (Sized t n) type (some t))
    (fun found => ∀ i ∈ found, ∃ m, n = some m ∧ i < m) (Act.ask (Context.locate row)) := by
  apply Keeps.ask
  intro c hc found hfound i hi
  obtain ⟨live, hlive, hposition⟩ := exists_of_bind_ok hfound
  obtain ⟨name, hname, hrows⟩ := Context.rows_eq_ok.mp hlive
  cases hc.table_eq.symm.trans hname
  have hsize : c.state.store.size? t = n := hc.state
  obtain ⟨_, hthere, -⟩ := exists_of_position ((Except.ok.inj hposition).trans hi)
  refine ⟨live.length, ?_, (List.getElem?_eq_some_iff.mp hthere).1⟩
  rw [← hsize, Store.size?, hrows]
  rfl

theorem size?_load (store : Store) (t : String) (rows : List Value) :
    (store.load t rows).size? t = some rows.length := by
  rw [Store.size?, Store.rows?_load, if_pos rfl]
  rfl

/-- As many rows are written as there were. -/
theorem Keeps.setRows_sized (h : n = some rows.length) :
    Keeps (Framed (Sized t n) type (some t)) (fun _ => True) (Act.setRows rows) := by
  intro c hc
  have hrun := Act.runFrom_setRows rows c
  rw [Act.runFrom, hc.table_eq] at hrun
  rw [hrun]
  exact ⟨⟨hc.type_eq, hc.table_eq, (size?_load _ t rows).trans h.symm⟩, fun _ _ => trivial⟩

/-- The last write of an action; what follows on it has a result and leaves the table alone. -/
theorem Settles.setRows {α : Type} {rest : Act α} {Q : α → Context → Prop}
    (hrest : ∀ c, Framed (Sized t (some rows.length)) type (some t) c →
      ∃ a next, rest.runFrom c = (.ok a, next) ∧ Q a next) :
    Settles (Framed (Sized t n) type (some t)) Q (do Act.setRows rows; rest) := by
  intro c hc
  have hrun := Act.runFrom_setRows rows c
  rw [Act.runFrom, hc.table_eq] at hrun
  obtain ⟨a, next, hlast, hQ⟩ :=
    hrest { c with state := { c.state with store := c.state.store.load t rows } }
      ⟨hc.type_eq, hc.table_eq, size?_load c.state.store t rows⟩
  have hout : StateT.run (ExceptT.run (do Act.setRows rows; rest)) c = (.ok a, next) := by
    rw [run_bind, hrun]
    exact hlast
  rw [hout]
  exact hQ

/-- The report goes by the number of rows before and after. -/
theorem Accounts.of_sized {report : Report} {c : Context} {before after : Nat}
    (hbefore : n = some before) (hafter : c.state.store.size? t = some after)
    (hcount : after + report.deleted.getD 0 = before + report.inserted.getD 0) :
    Accounts t n report c := by
  rw [Accounts, hafter, hbefore, Option.map_some, Option.map_some, hcount]

/-- A write of rows with the report on it. -/
theorem Settles.setRows_report {report : Report} (hlive : n = some live.length)
    (hcount : rows.length + report.deleted.getD 0 = live.length + report.inserted.getD 0) :
    Settles (Framed (Sized t n) type (some t)) (Accounts t n)
      (do Act.setRows rows; return report) :=
  .setRows fun c hc => ⟨report, c, rfl, .of_sized hlive hc.state hcount⟩

/-- What keeps the number of rows is accounted for by a report with as many deletions as
insertions. -/
theorem Settles.of_keeps_sized {x : Act Report}
    (hx : Keeps (Framed (Sized t n) type (some t))
      (fun r => r.deleted.getD 0 = r.inserted.getD 0) x) :
    Settles (Framed (Sized t n) type (some t)) (Accounts t n) x := by
  apply Settles.of_keeps hx
  intro report c hc heven
  have hsize : c.state.store.size? t = n := hc.state
  rw [Accounts, hsize, heven]

end

def Accounted (t : String) (n : Option Nat) (v : Value) (c : Context) : Prop :=
  ∃ report : Report, v = report.toValue ∧ Accounts t n report c

namespace Mutation

variable {t : String} {n : Option Nat} {type : TypeTag} {receiver row : Value} {rows : List Value}
  {arg : Argument}

/-- Every row of the loop goes in or is counted as an error. -/
theorem insertRows_sized (batch : List Fields) (done : Inserted) :
    Keeps (Framed (Sized t n) type (some t))
      (fun d => d.rows.length + d.errors = done.rows.length + done.errors + batch.length ∧
        done.rows.length ≤ d.rows.length) (batch.foldlM insertRow done) := by
  induction batch generalizing done with
  | nil => exact Keeps.pure ⟨rfl, Nat.le_refl _⟩
  | cons row rest ih =>
    rw [List.foldlM_cons]
    refine Keeps.bind (P := fun d : Inserted =>
      d.rows.length + d.errors = done.rows.length + done.errors + 1 ∧
        done.rows.length ≤ d.rows.length) ?_ fun d hd => ?_
    · unfold insertRow
      split
      · split
        · exact Keeps.pure ⟨Nat.add_assoc .. |>.symm, Nat.le_refl _⟩
        · refine Keeps.pure ?_
          simp only [List.length_append, List.length_singleton]
          omega
      · refine Keeps.bind (Keeps.freshKey (Q := fun _ => True) fun s hs => ⟨hs, trivial⟩)
          fun key _ => ?_
        refine Keeps.pure ?_
        simp only [List.length_append, List.length_singleton]
        omega
    · refine (ih d).imp fun last hlast => ?_
      rw [List.length_cons]
      omega

theorem insert_settles (receiver : Value) (options : Argument)
    (harg : arg.Good (Sized t n) fun _ => True) :
    Settles (Framed (Sized t n) type (some t)) (Accounted t n) (insert receiver arg options) := by
  refine .bind Keeps.check fun _ _ => ?_
  refine .bind (Keeps.resolve harg) fun _ _ => ?_
  refine .bind (Keeps.ofExcept fun _ _ => trivial) fun batch (_ : True) => ?_
  refine .bind Keeps.rows_sized fun live hlive => ?_
  -- what the report calls inserted is the size of the batch less the errors
  refine .bind (insertRows_sized batch ⟨live, 0, []⟩) fun done hdone => ?_
  refine .setRows fun c hc => ⟨_, c, rfl, insertReport batch.length done, rfl,
    .of_sized hlive hc.state ?_⟩
  dsimp only [insertReport, Option.getD_some, Option.getD_none]
  dsimp only at hdone
  omega

/-- A patched row is written over the live one. -/
theorem applyPatch_sized (index : Nat) (patch : Fields) :
    Keeps (Framed (Sized t n) type (some t)) (fun _ => True) (applyPatch index patch) := by
  refine Keeps.bind Keeps.rows_sized fun live hlive => ?_
  split
  · split
    · exact Keeps.pure trivial
    · refine Keeps.map (Keeps.setRows_sized ?_) fun _ _ => trivial
      rw [List.length_set]
      exact hlive
  · exact Keeps.pure trivial

/-- No row is inserted or deleted, and the table keeps its size. -/
theorem update_settles (options : Argument) (harg : arg.Good (Sized t n) fun _ => True) :
    Settles (Framed (Sized t n) type (some t)) (Accounted t n) (update receiver arg options) := by
  have happly (index : Nat) (patch : Fields) (_ : True) :
      Keeps (Framed (Sized t n) type (some t)) (fun _ => True) (applyPatch index patch) :=
    applyPatch_sized index patch
  apply Settles.of_keeps
    (update_of_applyPatch happly Value.hereditary_true trivial options harg)
  rintro _ c hc ⟨report, rfl, hinserted, hdeleted⟩
  have hsize : c.state.store.size? t = n := hc.state
  refine ⟨report, rfl, ?_⟩
  rw [Accounts, hsize, hinserted, hdeleted]

/-- The row is one of the table, so there is one row less. -/
theorem deleteRow_settles :
    Settles (Framed (Sized t n) type (some t)) (Accounts t n) (deleteRow row) := by
  unfold deleteRow
  split
  · exact .of_keeps_sized (Keeps.pure rfl)
  · refine .bind Keeps.check fun _ _ => ?_
    refine .bind (Keeps.locate_sized row) fun found hfound => ?_
    split
    · exact .of_keeps_sized (Keeps.pure rfl)
    · next index =>
      -- the position was found in the rows that are read again for the write
      obtain ⟨m, hm, hindex⟩ := hfound index rfl
      refine .bind Keeps.rows_sized fun live hlive => ?_
      obtain rfl : m = live.length := Option.some.inj (hm.symm.trans hlive)
      refine .setRows fun c hc => ⟨_, _, rfl, .of_sized hlive hc.state ?_⟩
      have hpos : 0 < live.length := Nat.zero_lt_of_lt hindex
      rw [List.length_eraseIdx_of_lt hindex]
      exact Nat.sub_add_cancel hpos

theorem deleteRows_settles :
    Settles (Framed (Sized t n) type (some t)) (Accounts t n) (deleteRows rows) := by
  refine .bind Keeps.getContext fun c _ => ?_
  split
  · refine .bind Keeps.rows_sized fun live hlive => ?_
    exact .setRows_report hlive (Nat.zero_add _)
  · refine .bind Keeps.check fun _ _ => ?_
    split
    · exact .of_keeps_sized (Keeps.pure rfl)
    · refine .bind Keeps.rows_sized fun live hlive => ?_
      exact .setRows_report hlive (Nat.add_sub_cancel' (List.length_filter_le _ live))

theorem delete_settles :
    Settles (Framed (Sized t n) type (some t)) (Accounted t n) (delete receiver) := by
  unfold delete
  split
  · exact .map deleteRows_settles fun report _ h => ⟨report, rfl, h⟩
  · exact .map deleteRow_settles fun report _ h => ⟨report, rfl, h⟩

theorem replaceMissing_settles (harg : arg.Good (Sized t n) fun _ => True) :
    Settles (Framed (Sized t n) type (some t)) (Accounts t n) (replaceMissing arg) := by
  refine .bind (Keeps.resolve harg) fun new _ => ?_
  refine .bind (Keeps.ofExcept fun _ _ => trivial) fun key (_ : True) => ?_
  refine .bind Keeps.rows_sized fun live hlive => ?_
  split
  · exact .of_keeps_sized (Keeps.pure rfl)
  · exact .setRows_report hlive (List.length_append)

/-- A replacement is written over the live row. -/
theorem replaceRow_sized (harg : arg.Good (Sized t n) fun _ => True) (done : Tally) (row : Value) :
    Keeps (Framed (Sized t n) type (some t)) (fun _ => True) (replaceRow arg done row) := by
  refine Keeps.bind (Keeps.evalRow harg trivial) fun new _ => ?_
  refine Keeps.bind (Keeps.ofExcept fun _ _ => trivial) fun key (_ : True) => ?_
  split
  · exact Keeps.pure trivial
  · split
    · exact Keeps.pure trivial
    · refine Keeps.bind Keeps.check fun found _ => ?_
      split
      · exact Keeps.pure trivial
      · refine Keeps.bind Keeps.rows_sized fun live hlive => ?_
        refine Keeps.map (Keeps.setRows_sized ?_) fun _ _ => trivial
        rw [List.length_set]
        exact hlive

theorem replaceRows_settles (harg : arg.Good (Sized t n) fun _ => True) :
    Settles (Framed (Sized t n) type (some t)) (Accounts t n) (replaceRows rows arg) := by
  apply Settles.of_keeps_sized
  refine Keeps.map (P := fun _ => True) (Keeps.foldlM trivial fun done _ row _ => ?_)
    fun _ _ => rfl
  exact replaceRow_sized harg done row

theorem replace_settles (options : Argument) (harg : arg.Good (Sized t n) fun _ => True) :
    Settles (Framed (Sized t n) type (some t)) (Accounted t n) (replace receiver arg options) := by
  have hreport {x : Act Report} (hx : Settles (Framed (Sized t n) type (some t)) (Accounts t n) x) :
      Settles (Framed (Sized t n) type (some t)) (Accounted t n) (do return (← x).toValue) :=
    .map hx fun report _ h => ⟨report, rfl, h⟩
  refine .bind Keeps.check fun _ _ => ?_
  dsimp only
  split
  · split
    · exact hreport (.of_keeps_sized (Keeps.pure rfl))
    · exact hreport deleteRows_settles
    · exact hreport deleteRow_settles
  · split
    · exact hreport (replaceMissing_settles harg)
    · exact hreport (replaceRows_settles harg)
    · exact hreport (replaceRows_settles harg)

theorem entries_settle {e : Entry} (he : e ∈ entries) (receiver : Value) {args : List Argument}
    (hargs : ∀ a ∈ args, a.Good (Sized t n) fun _ => True) :
    Settles (Framed (Sized t n) type (some t)) (Accounted t n)
      (e.implementation.call receiver args) := by
  have hgood := Argument.good_getD hargs 0
  simp only [entries, List.mem_cons, List.not_mem_nil, or_false] at he
  -- no mutation looks at its options
  rcases he with rfl | rfl | rfl | rfl
  · exact insert_settles receiver .undefined hgood
  · exact update_settles .undefined hgood
  · exact replace_settles .undefined hgood
  · exact delete_settles

end Mutation

/-- Whatever the receiver, the arguments, the context and the tables: what a mutation reports as
inserted and deleted is by how much its table has grown and shrunk, and a mutation that fails leaves
as many rows as there were. -/
theorem Registry.size_of_invoke_writer {action : String} (haction : action ∈ Term.writers)
    (receiver : Value) {args : List Argument} {c : Context} {t : String}
    (htable : c.binding.table = some t) (hargs : ∀ a ∈ args, ∀ store, a.LeavesTables store) :
    match (builtin.invoke action receiver args).runFrom c with
    | (.ok v, next) => (∃ report : Report, v = report.toValue) ∧
        (next.state.store.size? t).map (· + v.counter "deleted") =
          (c.state.store.size? t).map (· + v.counter "inserted")
    | (.error _, next) => next.state.store.size? t = c.state.store.size? t := by
  have hgood (a : Argument) (ha : a ∈ args) := Argument.LeavesTables.sized
    (t := t) (n := c.state.store.size? t) (hargs a ha)
  have hsettles : Settles (Framed (Sized t (c.state.store.size? t)) c.type (some t))
      (Accounted t (c.state.store.size? t)) (builtin.invoke action receiver args) := by
    refine .bind (P := fun d => builtin.describe action = .ok d) (Keeps.ofExcept fun _ hd => hd)
      fun d hd => ?_
    refine .bind (Keeps.ofExcept fun _ _ => trivial) fun _ (_ : True) => ?_
    obtain ⟨entry, hentry, rfl, rfl⟩ := describe_builtin hd
    rcases mutation_or_not_writes hentry with hwrites | hreads
    · exact Mutation.entries_settle hwrites receiver hgood
    · exact absurd haction hreads
  have hstart : Framed (Sized t (c.state.store.size? t)) c.type (some t) c := ⟨rfl, htable, rfl⟩
  have hend := hsettles c hstart
  rw [Act.runFrom]
  split
  · next v next heq =>
    rw [heq] at hend
    obtain ⟨report, rfl, hcount⟩ := hend
    refine ⟨⟨report, rfl⟩, ?_⟩
    rw [Report.counter_inserted, Report.counter_deleted]
    exact hcount
  · next e next heq =>
    rw [heq] at hend
    exact hend.state

/-- A deletion of a row that is given twice and of one that is not in the table, and a replacement
that has written its first row when it fails at the second. -/
theorem Registry.size_of_invoke_writer_two :
    let first : Value := .object [("id", .bool true), ("v", .object [("id", .bool true)])]
    let second : Value := .object [("id", .bool false), ("v", .null)]
    let other : Value := .object [("id", .string "other")]
    let value : Argument :=
      .deferred fun row => (Term.call "bracket" .row [.datum (.string "v")]).run row
    let c : Context := ⟨.selectionArray, { table := some "t" },
      ⟨⟨[("t", [first, second])]⟩, ⟨fun _ _ => ""⟩, 0⟩⟩
    let deletion := (builtin.invoke "delete" (.array [first, other, first]) []).runFrom c
    let replacement := (builtin.invoke "replace" (.array [first, second]) [value]).runFrom c
    ("delete" ∈ Term.writers ∧ "replace" ∈ Term.writers) ∧ c.binding.table = some "t" ∧
      (∀ a ∈ [value], ∀ store, a.LeavesTables store) ∧
      (deletion.1 = .ok (Report.ofDeletedRows 1).toValue ∧
        (deletion.2.state.store.size? "t").map (· + 1) = some 2) ∧
      replacement.1 = .error (.replacementKind .null) ∧
        replacement.2.state.store.rows? "t" = some [.object [("id", .bool true)], second] ∧
        replacement.2.state.store.size? "t" = some 2 := by
  intro first second other value c deletion replacement
  have hdelete : "delete" ∈ Term.writers := by decide
  have hreplace : "replace" ∈ Term.writers := by decide
  have htable : c.binding.table = some "t" := rfl
  have hnone : ∀ a ∈ ([] : List Argument), ∀ store, a.LeavesTables store := by simp
  have hvalue : ∀ a ∈ [value], ∀ store, a.LeavesTables store := by
    intro a ha store
    obtain rfl := List.mem_singleton.mp ha
    intro row s hs
    rw [Term.run_state rfl]
    exact hs
  have hdeleted : deletion.1 = .ok (Report.ofDeletedRows 1).toValue := by cbv
  have hfailed : replacement.1 = .error (.replacementKind .null) := by cbv
  have hdeletion := size_of_invoke_writer hdelete (.array [first, other, first]) htable hnone
  have hreplacement := size_of_invoke_writer hreplace (.array [first, second]) htable hvalue
  have hdeletionRun : (builtin.invoke "delete" (.array [first, other, first]) []).runFrom c =
      (.ok (Report.ofDeletedRows 1).toValue, deletion.2) := Prod.ext hdeleted rfl
  have hreplacementRun : (builtin.invoke "replace" (.array [first, second]) [value]).runFrom c =
      (.error (.replacementKind .null), replacement.2) := Prod.ext hfailed rfl
  rw [hdeletionRun] at hdeletion
  rw [hreplacementRun] at hreplacement
  exact ⟨⟨hdelete, hreplace⟩, rfl, hvalue, ⟨hdeleted, hdeletion.2⟩, hfailed, by cbv, hreplacement⟩

end TableQuery
