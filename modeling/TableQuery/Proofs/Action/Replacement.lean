import Mathlib
import TableQuery.Proofs.PrimaryKey.Writing
import TableQuery.Proofs.Term.Evaluation

namespace TableQuery

namespace Act

variable {α β : Type} {x : Act α} {f : α → Act β} {c next : Context}

/-- A failure of two steps is one of the first, or of the second after the first. -/
theorem bind_error {e : Error} (h : (x >>= f).runFrom c = (.error e, next)) :
    x.runFrom c = (.error e, next) ∨
      ∃ a mid, x.runFrom c = (.ok a, mid) ∧ (f a).runFrom mid = (.error e, next) := by
  rw [runFrom_bind] at h
  rcases hx : x.runFrom c with ⟨e' | a, mid⟩
  · rw [hx] at h
    cases h
    exact .inl rfl
  · rw [hx] at h
    exact .inr ⟨a, mid, rfl, h⟩

/-- A loop that fails does so at one item, after the items before it succeeded. -/
theorem exists_of_foldlM_error {step : β → α → Act β} {xs : List α} {b : β} {e : Error}
    (h : (xs.foldlM step b).runFrom c = (.error e, next)) :
    ∃ before x after b' mid, xs = before ++ x :: after ∧
      (before.foldlM step b).runFrom c = (.ok b', mid) ∧
      (step b' x).runFrom mid = (.error e, next) := by
  induction xs generalizing b c with
  | nil => cases h
  | cons x rest ih =>
    rw [List.foldlM_cons] at h
    rcases bind_error h with hfirst | ⟨b', mid, hfirst, hrest⟩
    · exact ⟨[], x, rest, b, c, rfl, rfl, hfirst⟩
    · obtain ⟨before, y, after, b'', mid', rfl, hbefore, hy⟩ := ih hrest
      refine ⟨x :: before, y, after, b'', mid', rfl, ?_, hy⟩
      rw [List.foldlM_cons, runFrom_bind, hfirst]
      exact hbefore

/-- What each item of a loop keeps, told which items came before it, holds after some of them. -/
theorem foldlM_ok_of_prefix {step : β → α → Act β} {P : List α → β → Context → Prop} {all : List α}
    (hstep : ∀ done x rest b b' c c', all = done ++ x :: rest → P done b c →
      (step b x).runFrom c = (.ok b', c') → P (done ++ [x]) b' c')
    {done xs : List α} (hall : done ++ xs <+: all) {b b' : β} (hstart : P done b c)
    (h : (xs.foldlM step b).runFrom c = (.ok b', next)) : P (done ++ xs) b' next := by
  induction xs generalizing done b c with
  | nil =>
    cases h
    rwa [List.append_nil]
  | cons x rest ih =>
    rw [List.foldlM_cons] at h
    obtain ⟨b1, mid, hfirst, hrest⟩ := bind_ok h
    have hsplit : done ++ x :: rest = done ++ [x] ++ rest := by simp
    rw [hsplit] at hall ⊢
    obtain ⟨after, hafter⟩ := hall
    have hprefix : all = done ++ x :: (rest ++ after) := by rw [← hafter]; simp
    exact ih ⟨after, hafter⟩ (hstep done x _ b b1 c mid hprefix hstart hfirst) hrest

/-- What each item of a loop keeps holds after the loop. -/
theorem foldlM_ok {step : β → α → Act β} {xs : List α} (P : List α → β → Context → Prop)
    (hstep : ∀ done x rest b b' c c', xs = done ++ x :: rest → P done b c →
      (step b x).runFrom c = (.ok b', c') → P (done ++ [x]) b' c')
    {b b' : β} (hstart : P [] b c) (h : (xs.foldlM step b).runFrom c = (.ok b', next)) :
    P xs b' next := by
  have hall : [] ++ xs <+: xs := List.prefix_refl xs
  exact foldlM_ok_of_prefix hstep hall hstart h

end Act

namespace Mutation

open Act

def ReadsOnly (value : Argument) : Prop :=
  ∀ row s, ((value.evalRow row).runFrom s).2.store = s.store

/-- A row expression that calls no mutation changes no table. -/
theorem readsOnly_deferred {t : Term} (h : t.mutates = false) :
    ReadsOnly (.deferred fun row => t.run row) :=
  fun row s => congrArg State.store (t.run_state h (some row) s)

variable {value options : Argument} {row : Value} {rows : List Value} {done tally : Tally}
  {c c' : Context} {e : Error}

theorem evalRow_frame {outcome : Except Error Value} (hvalue : ReadsOnly value)
    (h : (evalRow row value).runFrom c = (outcome, c')) :
    c'.type = c.type ∧ c'.binding = c.binding ∧ c'.state.store = c.state.store := by
  rw [evalRow, runFrom_ofEval] at h
  obtain rfl := (Prod.ext_iff.mp h).2
  exact ⟨rfl, rfl, hvalue row c.state⟩

/-- Writing to a table whose rows could be read does not fail. -/
theorem setRows_error {live written : List Value} {α : Type} {a : α} (hlive : c.rows = .ok live)
    (h : (do setRows written; return a : Act α).runFrom c = (.error e, c')) : False := by
  obtain ⟨name, -, -, hset⟩ := Context.exists_runFrom_setRows hlive written
  rcases bind_error h with hfirst | ⟨_, _, -, hdone⟩
  · cases hset.symm.trans hfirst
  · cases hdone

/-- A new value that passes both checks has the key of the row. -/
theorem sameKey_of_replacementKey {row new key : Value} (hkey : replacementKey new = .ok key)
    (hold : (row.id?.any fun old => old.strictEquals key) = true) : SameKey row new := by
  obtain ⟨old, hid, hequal⟩ := (Option.any_eq_true _ _).mp hold
  exact ⟨old, key, hid, replacementKey_ok hkey, by rwa [← Value.strictEquals_eq_equals]⟩

/-- The tables after a row: as before, or with one row of the bound table written over. -/
theorem replaceRow_ok (hvalue : ReadsOnly value)
    (h : (replaceRow value done row).runFrom c = (.ok tally, c')) :
    c'.type = c.type ∧ c'.binding = c.binding ∧
      ((tally.replaced = done.replaced ∧ c'.state.store = c.state.store) ∨
        ∃ name live index new, c.binding.table = some name ∧
          c.state.store.rows? name = some live ∧
          Context.position c.binding.rowIndex row live = some index ∧ SameKey row new ∧
          row.equals new = false ∧ tally.replaced = done.replaced + 1 ∧
          c'.state.store = c.state.store.load name (live.set index new)) := by
  obtain ⟨new, mid, heval, hchecks⟩ := bind_ok h
  obtain ⟨htype, hbinding, hstore⟩ := evalRow_frame hvalue heval
  obtain ⟨key, _, hread, hwrite⟩ := bind_ok hchecks
  obtain ⟨hkey, rfl⟩ := runFrom_ofExcept_ok hread
  -- another key, the same value and a row that is gone are only counted
  split at hwrite
  · cases hwrite
    exact ⟨htype, hbinding, .inl ⟨rfl, hstore⟩⟩
  next hold =>
  split at hwrite
  · cases hwrite
    exact ⟨htype, hbinding, .inl ⟨rfl, hstore⟩⟩
  next hdiffer =>
  obtain ⟨found, _, hfound, hput⟩ := bind_ok hwrite
  obtain ⟨hfound, rfl⟩ := runFrom_ask_ok hfound
  rcases found with _ | index
  · cases hput
    exact ⟨htype, hbinding, .inl ⟨rfl, hstore⟩⟩
  obtain ⟨live, hlive, hposition⟩ := exists_of_bind_ok hfound
  obtain ⟨again, _, hagain, hlast⟩ := bind_ok hput
  obtain ⟨hagain, rfl⟩ := runFrom_ask_ok hagain
  obtain rfl := Except.ok.inj (hlive.symm.trans hagain)
  obtain ⟨name, hname, hrows, hset⟩ := Context.exists_runFrom_setRows hlive (live.set index new)
  obtain ⟨_, last, hput, hdone⟩ := bind_ok hlast
  cases hset.symm.trans hput
  cases hdone
  refine ⟨htype, hbinding, .inr ⟨name, live, index, new, ?_⟩⟩
  rw [← hbinding, ← hstore]
  exact ⟨hname, hrows, Except.ok.inj hposition,
    sameKey_of_replacementKey hkey (by simpa using hold), by simpa using hdiffer, rfl, rfl⟩

/-- A row that fails has changed no table. -/
theorem replaceRow_error (hvalue : ReadsOnly value)
    (h : (replaceRow value done row).runFrom c = (.error e, c')) :
    c'.state.store = c.state.store := by
  rcases bind_error h with heval | ⟨new, mid, heval, hchecks⟩
  · exact (evalRow_frame hvalue heval).2.2
  rw [← (evalRow_frame hvalue heval).2.2]
  rcases bind_error hchecks with hkey | ⟨key, _, hkey, hwrite⟩
  · exact congrArg (fun out => out.2.state.store) (hkey.symm.trans (runFrom_ofExcept _ _))
  obtain ⟨-, rfl⟩ := runFrom_ofExcept_ok hkey
  split at hwrite
  · cases hwrite
  split at hwrite
  · cases hwrite
  rcases bind_error hwrite with hfound | ⟨found, _, hfound, hput⟩
  · exact congrArg (fun out => out.2.state.store) (hfound.symm.trans (runFrom_ask _ _))
  obtain ⟨-, rfl⟩ := runFrom_ask_ok hfound
  rcases found with _ | index
  · cases hput
  rcases bind_error hput with hlive | ⟨live, _, hlive, hlast⟩
  · exact congrArg (fun out => out.2.state.store) (hlive.symm.trans (runFrom_ask _ _))
  obtain ⟨hlive, rfl⟩ := runFrom_ask_ok hlive
  exact (setRows_error hlive hlast).elim

/-- As long as no row was replaced the tables are as before. -/
theorem foldlM_replaceRow_store (hvalue : ReadsOnly value)
    (h : (rows.foldlM (replaceRow value) ⟨0, 0, 0⟩).runFrom c = (.ok tally, c')) :
    tally.replaced = 0 → c'.state.store = c.state.store := by
  refine foldlM_ok (fun _ tally next => tally.replaced = 0 → next.state.store = c.state.store)
    ?_ (fun _ => rfl) h
  intro _ row _ before after mid next _ ih hrow hnone
  obtain ⟨-, -, ⟨hcount, hstore⟩ | ⟨_, _, _, _, -, -, -, -, -, hcount, -⟩⟩ :=
    replaceRow_ok hvalue hrow
  · exact hstore.trans (ih (hcount ▸ hnone))
  · omega

/-- How far a replacement of selected rows has come. `live` are the rows that the bound table had,
`before` those of them that it has met and `now` the rows that the table has. -/
structure Progress (name : String) (live before : List Value) (tally : Tally) (start : Context)
    (next : Context) : Prop where
  binding_eq : next.binding = start.binding
  exists_rows : ∃ now, next.state.store.rows? name = some now ∧ SameKeys live now ∧
    (∀ (i : Nat) (row : Value), live[i]? = some row → row ∉ before → now[i]? = some row) ∧
    (0 < tally.replaced → ∃ (i : Nat) (row new : Value), live[i]? = some row ∧ row ∈ before ∧
      now[i]? = some new ∧ row.equals new = false)

/-- The rows of a selection are different, so a row that was replaced is not met again. -/
theorem Progress.step {name : String} {admits : Value → Prop} {live before rest : List Value}
    {start mid next : Context} (hvalue : ReadsOnly value)
    (hname : start.binding.table = some name) (hlive : KeyedBy admits live)
    (hrows : (before ++ row :: rest).Subperm live)
    (h : Progress name live before done start mid)
    (hrow : (replaceRow value done row).runFrom mid = (.ok tally, next)) :
    Progress name live (before ++ [row]) tally start next := by
  obtain ⟨hbinding, now, hnow, hkeys, huntouched, hreplaced⟩ := h
  obtain ⟨i, hi⟩ := List.mem_iff_getElem?.mp (hrows.subset (by simp : row ∈ before ++ row :: rest))
  have hfirst : row ∉ before := by
    have hnodup := hlive.nodup_of_subperm hrows
    rw [List.nodup_append] at hnodup
    exact fun hmem => hnodup.2.2 row hmem row List.mem_cons_self rfl
  have hthere := huntouched i row hi hfirst
  -- either nothing is written, or this row at its own position
  obtain ⟨-, hsame, ⟨hcount, hstore⟩ | hwritten⟩ := replaceRow_ok hvalue hrow
  · refine ⟨hsame.trans hbinding, now, hstore ▸ hnow, hkeys, fun k r hk hr => ?_, fun hpos => ?_⟩
    · exact huntouched k r hk fun hmem => hr (List.mem_append_left _ hmem)
    · obtain ⟨k, r, new, hk, hr, hnew, hdiffer⟩ := hreplaced (hcount ▸ hpos)
      exact ⟨k, r, new, hk, List.mem_append_left _ hr, hnew, hdiffer⟩
  · obtain ⟨name', now', index, new, hname', hnow', hindex, hkey, hdiffer, hcount, hstore⟩ :=
      hwritten
    rw [hbinding, hname] at hname'
    cases hname'
    obtain rfl := Option.some.inj (hnow.symm.trans hnow')
    rw [hkeys.position_eq hlive hi hthere] at hindex
    cases hindex
    have hbound := (List.getElem?_eq_some_iff.mp hthere).1
    refine ⟨hsame.trans hbinding, now.set i new, ?_, hkeys.set hi hkey, fun k r hk hr => ?_, ?_⟩
    · rw [hstore, Store.rows?_load, if_pos rfl]
    · have hne : i ≠ k := by
        intro heq
        obtain rfl := Option.some.inj (hi.symm.trans (heq ▸ hk))
        exact hr (by simp)
      rw [List.getElem?_set_ne hne]
      exact huntouched k r hk fun hmem => hr (List.mem_append_left _ hmem)
    · exact fun _ => ⟨i, row, new, hi, by simp, List.getElem?_set_self hbound, hdiffer⟩

/-- A failed replacement of the selected rows leaves the tables as they were exactly if none of
the rows before the faulty one had been replaced. -/
theorem unchanged_iff_none_replaced {admits : Value → Prop} {live before after : List Value}
    (hvalue : ReadsOnly value) (hc : c.rows = .ok live) (hlive : KeyedBy admits live)
    (hrows : (before ++ after).Subperm live)
    (h : (before.foldlM (replaceRow value) ⟨0, 0, 0⟩).runFrom c = (.ok tally, c')) :
    c'.state.store = c.state.store ↔ tally.replaced = 0 := by
  obtain ⟨name, hname, hfound⟩ := Context.rows_eq_ok.mp hc
  constructor
  · intro hstore
    have hprogress : Progress name live before tally c c' := by
      refine foldlM_ok (fun before tally next => Progress name live before tally c next) ?_ ?_ h
      · intro done x rest b b' mid next hsplit hprogress hrow
        have hthese : (done ++ x :: (rest ++ after)).Subperm live := by
          rw [hsplit] at hrows
          simpa using hrows
        exact hprogress.step hvalue hname hlive hthese hrow
      · exact ⟨rfl, live, hfound, .refl hlive, fun _ _ hi _ => hi, fun hpos => by simp at hpos⟩
    obtain ⟨-, now, hnow, -, -, hreplaced⟩ := hprogress
    rw [hstore, hfound] at hnow
    cases hnow
    by_contra hne
    obtain ⟨i, row, new, hi, -, hnew, hdiffer⟩ := hreplaced (by omega)
    obtain rfl := Option.some.inj (hi.symm.trans hnew)
    rw [Value.equals_refl (hlive.getElem?_isRow hi).distinct] at hdiffer
    cases hdiffer
  · exact foldlM_replaceRow_store hvalue h

/-- A deletion of rows that fails has deleted none. -/
theorem deleteRows_error (h : (deleteRows rows).runFrom c = (.error e, c')) : c' = c := by
  have hrows {written : List Value → List Value} {report : List Value → Report}
      (h : (do let live ← ask Context.rows; setRows (written live); return report live :
        Act Report).runFrom c = (.error e, c')) : c' = c := by
    rcases bind_error h with hlive | ⟨live, _, hlive, hput⟩
    · exact (congrArg Prod.snd ((runFrom_ask _ _).symm.trans hlive)).symm
    obtain ⟨hlive, rfl⟩ := runFrom_ask_ok hlive
    exact (setRows_error hlive hput).elim
  unfold deleteRows at h
  rw [runFrom_bind, runFrom_get] at h
  dsimp only at h
  split at h
  · exact hrows h
  · rcases bind_error h with htype | ⟨_, _, htype, hrest⟩
    · exact (congrArg Prod.snd ((runFrom_ask _ _).symm.trans htype)).symm
    obtain ⟨-, rfl⟩ := runFrom_ask_ok htype
    split at hrest
    · cases hrest
    · exact hrows hrest

/-- A replacement of many rows that fails: by `null`, which changes nothing, or at a row. Then
the rows before that row stay as they were written, so the tables are as before if none of them
was replaced, and for selected rows only then. -/
theorem replace_error (hselection : c.type.isSelection = true) (hvalue : ReadsOnly value)
    (h : (replace (.array rows) value options).runFrom c = (.error e, c')) :
    (value.isNull = true ∧ c'.state.store = c.state.store) ∨
      ∃ before row after tally mid, rows = before ++ row :: after ∧
        (before.foldlM (replaceRow value) ⟨0, 0, 0⟩).runFrom c = (.ok tally, mid) ∧
        (replaceRow value tally row).runFrom mid = (.error e, c') ∧
        c'.state.store = mid.state.store ∧
        (tally.replaced = 0 → c'.state.store = c.state.store) ∧
        ∀ admits live, c.rows = .ok live → KeyedBy admits live → rows.Subperm live →
          (c'.state.store = c.state.store ↔ tally.replaced = 0) := by
  have hexpect : c.expectSelection = .ok () := if_pos hselection
  unfold replace at h
  rw [runFrom_bind, runFrom_ask, hexpect] at h
  dsimp only at h
  split at h
  · next hnull =>
    refine .inl ⟨hnull, ?_⟩
    rcases bind_error h with hdelete | ⟨_, _, -, hdone⟩
    · rw [deleteRows_error hdelete]
    · cases hdone
  · right
    rcases bind_error h with hloop | ⟨_, _, -, hdone⟩
    · rcases bind_error hloop with hfold | ⟨_, _, -, hdone⟩
      · obtain ⟨before, row, after, tally, mid, rfl, hbefore, hrow⟩ := exists_of_foldlM_error hfold
        have hstore := replaceRow_error hvalue hrow
        refine ⟨before, row, after, tally, mid, rfl, hbefore, hrow, hstore, fun hnone => ?_, ?_⟩
        · exact hstore.trans (foldlM_replaceRow_store hvalue hbefore hnone)
        · intro admits live hlive hkeyed hrows
          rw [hstore]
          exact unchanged_iff_none_replaced hvalue hlive hkeyed hrows hbefore
      · cases hdone
    · cases hdone

/-- The first row is replaced by an object with its key before the second one fails. -/
theorem replace_error_second :
    let first : Value := .object [("id", .bool true), ("v", .object [("id", .bool true)])]
    let second : Value := .object [("id", .bool false), ("v", .null)]
    let value : Argument :=
      .deferred fun row => (Term.call "bracket" .row [.datum (.string "v")]).run row
    let c : Context := ⟨.table, { table := some "t" },
      ⟨⟨[("t", [first, second])]⟩, ⟨fun _ _ => ""⟩, 0⟩⟩
    let out := (replace (.array [first, second]) value .undefined).runFrom c
    out.1 = .error (.replacementKind .null) ∧
      ∃ before tally mid, before <+: [first, second] ∧
        (before.foldlM (replaceRow value) ⟨0, 0, 0⟩).runFrom c = (.ok tally, mid) ∧
        out.2.state.store = mid.state.store ∧ tally.replaced ≠ 0 := by
  intro first second value c out
  have herror : out.1 = .error (.replacementKind .null) := by cbv
  have hrows : out.2.state.store.rows? "t" = some [.object [("id", .bool true)], second] := by cbv
  have hkeyed : KeyedBy (fun _ => True) [first, second] := by
    refine ⟨?_, by decide⟩
    simp only [List.forall_mem_cons]
    exact ⟨⟨by decide, _, rfl, trivial⟩, ⟨by decide, _, rfl, trivial⟩, by simp⟩
  refine ⟨herror, ?_⟩
  have hrun : (replace (.array [first, second]) value .undefined).runFrom c =
      (.error (.replacementKind .null), out.2) := Prod.ext herror rfl
  have h := replace_error rfl (readsOnly_deferred rfl) hrun
  rcases h with ⟨hnull, -⟩ | ⟨before, row, after, tally, mid, hsplit, hbefore, -, hstore, -, hiff⟩
  · cases hnull
  · refine ⟨before, tally, mid, ⟨row :: after, hsplit.symm⟩, hbefore, hstore, ?_⟩
    intro hnone
    have hsame := (hiff _ _ rfl hkeyed (List.Subperm.refl _)).mpr hnone
    rw [hsame] at hrows
    have hfirst := (List.cons.inj (Option.some.inj hrows)).1
    simp [first] at hfirst

/-- A failed replacement that has changed its table. -/
theorem not_unchanged_replace_error :
    let first : Value := .object [("id", .bool true), ("v", .object [("id", .bool true)])]
    let second : Value := .object [("id", .bool false), ("v", .string "x")]
    let value : Argument :=
      .deferred fun row => (Term.call "bracket" .row [.datum (.string "v")]).run row
    let c : Context := ⟨.table, { table := some "t" },
      ⟨⟨[("t", [first, second])]⟩, ⟨fun _ _ => ""⟩, 0⟩⟩
    let out := (replace (.array [first, second]) value .undefined).runFrom c
    out.1 = .error (.replacementKind .string) ∧ ReadsOnly value ∧
      out.2.state.store.rows? "t" = some [.object [("id", .bool true)], second] ∧
      out.2.state.store ≠ c.state.store := by
  intro first second value c out
  have herror : out.1 = .error (.replacementKind .string) := by cbv
  have hrows : out.2.state.store.rows? "t" = some [.object [("id", .bool true)], second] := by cbv
  refine ⟨herror, readsOnly_deferred rfl, hrows, fun hsame => ?_⟩
  rw [hsame] at hrows
  have hfirst := (List.cons.inj (Option.some.inj hrows)).1
  simp [first] at hfirst

end Mutation

end TableQuery
