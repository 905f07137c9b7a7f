import Mathlib
import TableQuery.Proofs.PrimaryKey.Writing

namespace TableQuery

def RowAt (live : List Value) (row : Value) (i : Nat) : Prop :=
  ∃ stored, live[i]? = some stored ∧ stored.sameRow row = true

/-- What is found for a row in some live rows: a position if the row is among them. It is the hint
if the row is there, and otherwise the first position that has the row. -/
structure Located (live : List Value) (hint : Option Nat) (row : Value) (found : Option Nat) :
    Prop where
  isSome_iff : found.isSome = true ↔ ∃ stored ∈ live, stored.sameRow row = true
  rowAt : ∀ i, found = some i → i < live.length ∧ RowAt live row i
  hinted : ∀ i, hint = some i → RowAt live row i → found = some i
  first : (∀ i, hint = some i → ¬ RowAt live row i) →
    ∀ i, found = some i → ∀ j < i, ¬ RowAt live row j

variable {live : List Value} {row : Value} {i j : Nat} {hint : Option Nat}

theorem RowAt.lt (h : RowAt live row i) : i < live.length := by
  obtain ⟨stored, hstored, -⟩ := h
  exact (List.getElem?_eq_some_iff.mp hstored).1

theorem exists_rowAt_iff :
    (∃ i, RowAt live row i) ↔ ∃ stored ∈ live, stored.sameRow row = true := by
  constructor
  · rintro ⟨i, stored, hstored, hsame⟩
    exact ⟨stored, List.mem_of_getElem? hstored, hsame⟩
  · rintro ⟨stored, hmem, hsame⟩
    obtain ⟨i, hi⟩ := List.mem_iff_getElem?.mp hmem
    exact ⟨i, stored, hi, hsame⟩

/-- Two positions with the same row are one, if the keys are apart. -/
theorem RowAt.eq {admits : Value → Prop} (hlive : KeyedBy admits live) (hrow : row.Distinct)
    (hi : RowAt live row i) (hj : RowAt live row j) : i = j := by
  obtain ⟨a, ha, hsame⟩ := hi
  obtain ⟨b, hb, hsame'⟩ := hj
  have hda := (hlive.getElem?_isRow ha).distinct
  have hdb := (hlive.getElem?_isRow hb).distinct
  have hback := Value.sameRow_symm hdb hrow hsame'
  exact hlive.index_eq ha hb (Value.sameRow_trans hda hrow hdb hsame hback)

theorem position_of_rowAt (h : RowAt live row i) : Context.position (some i) row live = some i := by
  obtain ⟨stored, hstored, hsame⟩ := h
  exact position_of_same hstored hsame

/-- A hint that is stale, out of range or missing is not looked at further. -/
theorem position_of_not_rowAt (h : ∀ i, hint = some i → ¬ RowAt live row i) :
    Context.position hint row live = live.findIdx? fun stored => stored.sameRow row := by
  have hnone : hint.filter (fun i => (live[i]?).any fun stored => stored.sameRow row) = none := by
    rw [Option.filter_eq_none_iff]
    intro i hi hany
    obtain ⟨stored, hstored, hsame⟩ := (Option.any_eq_true _ _).mp hany
    exact h i hi ⟨stored, hstored, hsame⟩
  rw [Context.position, hnone, Option.none_or]

theorem located_position (live : List Value) (hint : Option Nat) (row : Value) :
    Located live hint row (Context.position hint row live) where
  isSome_iff := by
    constructor
    · intro h
      obtain ⟨i, hi⟩ := Option.isSome_iff_exists.mp h
      exact exists_rowAt_iff.mp ⟨i, exists_of_position hi⟩
    · rintro ⟨stored, hmem, hsame⟩
      rw [Option.isSome_iff_ne_none]
      exact position_ne_none_of_mem hmem hsame
  rowAt i hi := by
    have hat : RowAt live row i := exists_of_position hi
    exact ⟨hat.lt, hat⟩
  hinted i hi hat := by rw [hi, position_of_rowAt hat]
  first hstale i hi j hj hat := by
    rw [position_of_not_rowAt hstale] at hi
    obtain ⟨_, -, hbefore⟩ := List.findIdx?_eq_some_iff_getElem.mp hi
    obtain ⟨stored, hstored, hsame⟩ := hat
    obtain ⟨hlt, rfl⟩ := List.getElem?_eq_some_iff.mp hstored
    exact hbefore j hj hsame

/-- Where the keys are apart, whether and where a row is found is told by the table alone. -/
theorem position_eq_position {admits : Value → Prop} (hlive : KeyedBy admits live)
    (hrow : row.Distinct) (hint hint' : Option Nat) :
    Context.position hint row live = Context.position hint' row live := by
  -- both searches find the row or neither does, and there is one position to find
  have hfound := located_position live hint row
  have hother := located_position live hint' row
  have hsome := hfound.isSome_iff.trans hother.isSome_iff.symm
  cases hi : Context.position hint row live with
  | none =>
    rw [hi] at hsome
    exact (Option.not_isSome_iff_eq_none.mp (mt hsome.mpr (by simp))).symm
  | some i =>
    rw [hi] at hsome
    obtain ⟨j, hj⟩ := Option.isSome_iff_exists.mp (hsome.mp rfl)
    rw [hj, RowAt.eq hlive hrow (hfound.rowAt i hi).2 (hother.rowAt j hj).2]

namespace Mutation

open Act

/-- What a step that may write one row comes to. Either its result counts a write, which was made at
the position at which the row was found and inside the bound table; or there was none. -/
inductive WritesRow {α : Type} (row : Value) (write : List Value → Nat → List Value)
    (counts : α → Prop) (c : Context) : Except Error α × Context → Prop
  | made {a : α} {next : Context} {name : String} {live : List Value} {i : Nat} (counted : counts a)
      (table_eq : c.binding.table = some name) (rows_eq : c.state.store.rows? name = some live)
      (locate_eq : c.locate row = .ok (some i)) (inBounds : i < live.length)
      (store_eq : next.state.store = c.state.store.load name (write live i)) :
      WritesRow row write counts c (.ok a, next)
  | none {outcome : Except Error α} {next : Context} (uncounted : ∀ a, outcome = .ok a → ¬ counts a)
      (store_eq : next.state.store = c.state.store) : WritesRow row write counts c (outcome, next)

variable {α : Type} {write : List Value → Nat → List Value} {counts : α → Prop}

theorem WritesRow.error {c next : Context} {e : Error}
    (h : next.state.store = c.state.store) : WritesRow row write counts c (.error e, next) :=
  .none (fun _ hok => by cases hok) h

theorem WritesRow.uncounted {a : α} {c next : Context} (ha : ¬ counts a)
    (h : next.state.store = c.state.store) : WritesRow row write counts c (.ok a, next) :=
  .none (fun _ hok => by cases hok; exact ha) h

/-- The way in which rows are written: the row is searched, and nothing comes between the search and
the write. -/
theorem writesRow_of_locate {missed : α} {finish : Act α} (hmissed : ¬ counts missed)
    (hfinish : ∀ c, ∃ a next, finish.runFrom c = (.ok a, next) ∧ counts a ∧
      next.state.store = c.state.store) (c : Context) :
    WritesRow row write counts c ((do
      match ← ask (Context.locate row) with
      | none => return missed
      | some index =>
        setRows (write (← ask Context.rows) index)
        finish : Act α).runFrom c) := by
  rw [runFrom_bind, runFrom_ask]
  cases hlocate : c.locate row with
  | error e => exact .error rfl
  | ok found =>
    cases found with
    | none => exact .uncounted hmissed rfl
    | some i =>
      dsimp only
      obtain ⟨live, hlive, hposition⟩ := exists_of_bind_ok hlocate
      obtain ⟨name, hname, hrows, hset⟩ := Context.exists_runFrom_setRows hlive (write live i)
      rw [runFrom_bind, runFrom_ask, hlive]
      dsimp only
      rw [runFrom_bind, hset]
      dsimp only
      obtain ⟨a, next, hrun, hcounts, hstore⟩ := hfinish
        { c with state := { c.state with store := c.state.store.load name (write live i) } }
      rw [hrun]
      have hat := (located_position live c.binding.rowIndex row).rowAt i (Except.ok.inj hposition)
      exact .made hcounts hname hrows hlocate hat.1 hstore

/-- The removal of a row. -/
theorem writesRow_deleteRow (row : Value) (c : Context) :
    WritesRow row List.eraseIdx (fun report => report.deleted = some 1) c
      ((deleteRow row).runFrom c) := by
  unfold deleteRow
  split
  · exact .uncounted (by simp [Report.ofDeleted]) rfl
  · rw [runFrom_bind, runFrom_ask]
    cases c.expectType .selection with
    | error e => exact .error rfl
    | ok _ =>
      apply writesRow_of_locate
      · simp [Report.ofDeleted]
      · exact fun next => ⟨_, _, rfl, rfl, rfl⟩

/-- The write of a replacement. Its value may change the tables, and the row is searched in what it
leaves. -/
theorem writesRow_replaceRow (value : Argument) (done : Tally) (row : Value) (c : Context) :
    match (evalRow row value).runFrom c with
    | (.ok new, mid) =>
      WritesRow row (fun live i => live.set i new)
        (fun tally => tally.replaced = done.replaced + 1) mid ((replaceRow value done row).runFrom c)
    | (.error e, mid) => (replaceRow value done row).runFrom c = (.error e, mid) := by
  unfold replaceRow
  rw [runFrom_bind]
  rcases (evalRow row value).runFrom c with ⟨e | new, mid⟩
  · rfl
  dsimp only
  rw [runFrom_bind, runFrom_ofExcept]
  cases replacementKey new with
  | error e => exact .error rfl
  | ok key =>
    dsimp only
    split
    · exact .uncounted (by simp) rfl
    split
    · exact .uncounted (by simp) rfl
    · apply writesRow_of_locate
      · simp
      · exact fun next => ⟨_, _, rfl, rfl, rfl⟩

end Mutation

/-- A row is found in a table exactly if it is there, at the position that is remembered if that has
the row and else at the first that has it; and if the keys are apart, at the same position whatever
is remembered. So a deletion of a row and a replacement of a row write inside the table or not at
all. -/
theorem Context.locate_exact {c : Context} {name : String} (htable : c.binding.table = some name)
    (hrows : c.state.store.rows? name = some live) (row : Value) :
    (∃ found, c.locate row = .ok found ∧ Located live c.binding.rowIndex row found) ∧
      (KeyedBy (fun _ => True) live → row.Distinct → ∀ hint,
        locate row { c with binding := { c.binding with rowIndex := hint } } = c.locate row) ∧
      Mutation.WritesRow row List.eraseIdx (fun report => report.deleted = some 1) c
        ((Mutation.deleteRow row).runFrom c) ∧
      ∀ (value : Argument) (done : Mutation.Tally), match (Act.evalRow row value).runFrom c with
        | (.ok new, mid) =>
          Mutation.WritesRow row (fun live i => live.set i new)
            (fun tally => tally.replaced = done.replaced + 1) mid
            ((Mutation.replaceRow value done row).runFrom c)
        | (.error e, mid) => (Mutation.replaceRow value done row).runFrom c = (.error e, mid) := by
  have hlocate (hint : Option Nat) :
      locate row { c with binding := { c.binding with rowIndex := hint } } =
        .ok (position hint row live) := by
    have hlive : rows { c with binding := { c.binding with rowIndex := hint } } = .ok live :=
      rows_eq_ok.mpr ⟨name, htable, hrows⟩
    rw [locate, hlive]
    rfl
  refine ⟨⟨_, hlocate c.binding.rowIndex, located_position live _ row⟩, ?_,
    Mutation.writesRow_deleteRow row c, fun value done => ?_⟩
  · intro hkeyed hrow hint
    exact (hlocate hint).trans <|
      (congrArg Except.ok (position_eq_position hkeyed hrow hint _)).trans
        (hlocate c.binding.rowIndex).symm
  · exact Mutation.writesRow_replaceRow value done row c

/-- The position that is remembered is stale; a missing one or one out of range makes no difference.
The row is deleted at its own position. -/
theorem Context.locate_exact_stale :
    let live : List Value := [.object [("id", .bool true)], .object [("id", .string "x")],
      .object [("id", .string "y")]]
    let row : Value := .object [("v", .null), ("id", .string "y")]
    let c : Context := ⟨.selection, { table := some "t", rowIndex := some 0 },
      ⟨⟨[("t", live)]⟩, ⟨fun _ _ => ""⟩, 0⟩⟩
    (c.binding.table = some "t" ∧ c.state.store.rows? "t" = some live ∧
        KeyedBy (fun _ => True) live ∧ row.Distinct) ∧
      Located live (some 0) row (some 2) ∧
      (∀ hint, locate row { c with binding := { c.binding with rowIndex := hint } } =
        .ok (some 2)) ∧
      ((Mutation.deleteRow row).runFrom c).2.state.store.rows? "t" = some (live.eraseIdx 2) := by
  intro live row c
  have hkeyed : KeyedBy (fun _ => True) live := by
    refine ⟨?_, by decide⟩
    simp only [live, List.forall_mem_cons]
    exact ⟨⟨by decide, _, rfl, trivial⟩, ⟨by decide, _, rfl, trivial⟩,
      ⟨by decide, _, rfl, trivial⟩, by simp⟩
  have hrow : row.Distinct := by decide
  have hfound : c.locate row = .ok (some 2) := by cbv
  have hdeleted : ((Mutation.deleteRow row).runFrom c).1 = .ok (.ofDeleted 1 0) := by cbv
  obtain ⟨⟨found, hlocate, hlocated⟩, hany, hdelete, -⟩ := locate_exact (c := c) rfl rfl row
  obtain rfl : some 2 = found := Except.ok.inj (hfound.symm.trans hlocate)
  refine ⟨⟨rfl, rfl, hkeyed, hrow⟩, hlocated, fun hint => ?_, ?_⟩
  · exact (hany hkeyed hrow hint).trans hfound
  · rcases hrun : (Mutation.deleteRow row).runFrom c with ⟨outcome, next⟩
    rw [hrun] at hdelete hdeleted
    cases hdelete with
    | made _ table_eq rows_eq locate_eq _ store_eq =>
      obtain rfl := Option.some.inj table_eq
      obtain rfl := Option.some.inj rows_eq
      obtain rfl : 2 = _ := Option.some.inj (Except.ok.inj (hfound.symm.trans locate_eq))
      change next.state.store.rows? "t" = _
      rw [store_eq, Store.rows?_load, if_pos rfl]
    | none uncounted store_eq => exact absurd rfl (uncounted _ hdeleted)

end TableQuery
