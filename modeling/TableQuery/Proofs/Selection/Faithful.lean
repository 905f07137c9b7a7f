import TableQuery.Proofs.Binary64.Integers
import TableQuery.Proofs.PrimaryKey.Writing
import TableQuery.Proofs.Selection.Selected

namespace TableQuery

namespace Value

variable {live : Value}

/-- Only `null` is the same row as `null`. -/
theorem eq_null_of_sameRow (h : live.sameRow .null = true) : live = .null := by
  have hequal : live.equals .null = true := by
    unfold sameRow at h
    cases hid : live.id? <;> rw [hid] at h <;> exact h
  have hkind := kind_eq_of_equals hequal
  cases live <;> first | rfl | cases hkind

end Value

/-- A row of a table is found in it, at its position or at that of the same row. -/
theorem exists_position {hint : Option Nat} {row : Value} {rows : List Value} (hmem : row ∈ rows)
    (hdistinct : row.distinctKeys = true) : ∃ i, Context.position hint row rows = some i :=
  Option.ne_none_iff_exists'.mp (position_ne_none_of_mem hmem (Value.sameRow_self hdistinct))

section

variable {c next : Context} {receiver v row : Value} {position : Nat}

/-- A row that is picked from a stream is looked for in the rows of the bound table. -/
theorem Act.bindRow_ok (hstream : c.type.isStream = true)
    (h : (bindRow row position).runFrom c = (.ok (), next)) :
    next.binding.table = c.binding.table ∧ ∃ live hint, c.rows = .ok live ∧
      next.binding.rowIndex = Context.position hint row live := by
  obtain ⟨_, _, hget, hbound⟩ := bind_ok h
  cases hget
  rw [if_pos hstream] at hbound
  obtain ⟨_, mid, hset, hsearch⟩ := bind_ok hbound
  cases hset
  obtain ⟨index, _, hask, hrecord⟩ := bind_ok hsearch
  obtain ⟨hlocate, rfl⟩ := runFrom_ask_ok hask
  obtain ⟨live, hlive, hindex⟩ := exists_of_bind_ok hlocate
  cases hrecord
  cases hindex
  exact ⟨rfl, live, _, hlive, rfl⟩

theorem Access.nthRow_ok {index : Value} (hstream : c.type.isStream = true)
    (h : (nthRow receiver index).runFrom c = (.ok v, next)) :
    next.binding.table = c.binding.table ∧ ∃ live hint, c.rows = .ok live ∧
      next.binding.rowIndex = Context.position hint v live := by
  obtain ⟨n, _, hread, hchecked⟩ := Act.bind_ok h
  obtain ⟨-, rfl⟩ := Act.runFrom_ofExcept_ok hread
  obtain ⟨_, _, hget, hindexed⟩ := Act.bind_ok hchecked
  cases hget
  split at hindexed
  · obtain ⟨_, _, hthrow, -⟩ := Act.bind_ok hindexed
    cases hthrow
  · obtain ⟨rows, _, hitems, hpicked⟩ := Act.bind_ok hindexed
    obtain ⟨-, rfl⟩ := Act.runFrom_ofExcept_ok hitems
    obtain ⟨row, _, hnth, hbind⟩ := Act.bind_ok hpicked
    obtain ⟨-, rfl⟩ := Act.runFrom_ofExcept_ok hnth
    obtain ⟨_, _, hbound, hdone⟩ := Act.bind_ok hbind
    cases hdone
    exact Act.bindRow_ok hstream hbound

/-- A row is picked by an index and bound; only the last row may be counted from the end of a
stream. -/
theorem Access.runFrom_nthRow_eq {rows : List Value} {index : Value} {k : Int}
    (hindex : wholeIndex index = .ok k) (c : Context) :
    (nthRow (.array rows) index).runFrom c =
      if k < -1 && c.type.isStream then (.error .streamIndex, c)
      else match Sequence.nth rows k with
        | .ok row => (do
            Act.bindRow row (Sequence.fromEnd rows.length k).toNat
            return row : Act Value).runFrom c
        | .error e => (.error e, c) := by
  unfold nthRow
  rw [Act.runFrom_bind, Act.runFrom_ofExcept, hindex]
  dsimp only
  rw [Act.runFrom_bind, Act.runFrom_get]
  dsimp only
  split
  · rfl
  · rw [Act.runFrom_bind, items, Act.runFrom_ofExcept]
    dsimp only
    rw [Act.runFrom_bind, Act.runFrom_ofExcept]
    cases Sequence.nth rows k <;> rfl

/-- A row that is there is picked by its position. -/
theorem Access.runFrom_nthRow {rows : List Value} {row index : Value} {n : Nat}
    (hindex : wholeIndex index = .ok (n : Int)) (hrow : rows[n]? = some row) (c : Context) :
    (nthRow (.array rows) index).runFrom c =
      (do Act.bindRow row n; return row : Act Value).runFrom c := by
  have hfrom : Sequence.fromEnd rows.length n = n := if_neg (by omega)
  have hnth : Sequence.nth rows n = .ok row := by
    simp [Sequence.nth, hfrom, hrow]
  have hstart : ¬((n : Int) < -1) := by omega
  rw [runFrom_nthRow_eq hindex, decide_eq_false hstart, Bool.false_and,
    if_neg Bool.false_ne_true, hnth, hfrom]
  rfl

/-- `get` binds the position at which it found the row. -/
theorem Selection.get_ok {key : Argument} (h : (get receiver key).runFrom c = (.ok v, next)) :
    c.type = .table ∧ next.binding.table = c.binding.table ∧ ∃ rows k, receiver = .array rows ∧
      next.binding.rowIndex = keyPosition k rows ∧
      v = ((keyPosition k rows).bind fun i => rows[i]?).getD .null := by
  obtain ⟨_, _, hask, hchecked⟩ := Act.bind_ok h
  obtain ⟨htable, hsame⟩ := Act.runFrom_ask_ok hask
  have htype : c.type = .table := by
    unfold Context.expectType at htable
    split at htable
    · next heq => exact heq
    · cases htable
  subst hsame
  split at hchecked
  · obtain ⟨_, _, hthrow, -⟩ := Act.bind_ok hchecked
    cases hthrow
  · obtain ⟨k, _, hresolve, hkey⟩ := Act.bind_ok hchecked
    rw [Act.resolve, Act.runFrom_ofEval] at hresolve
    obtain ⟨-, rfl⟩ := Prod.ext_iff.mp hresolve
    obtain ⟨_, _, hlegal, hread⟩ := Act.bind_ok hkey
    obtain ⟨-, rfl⟩ := Act.runFrom_ofExcept_ok hlegal
    obtain ⟨rows, _, hitems, hfound⟩ := Act.bind_ok hread
    obtain ⟨hrows, rfl⟩ := Act.runFrom_ofExcept_ok hitems
    obtain ⟨_, _, hindex, hid⟩ := Act.bind_ok hfound
    cases hindex
    obtain ⟨_, _, hkept, hdone⟩ := Act.bind_ok hid
    cases hkept
    cases hdone
    exact ⟨htype, rfl, rows, k, Access.items_eq hrows, rfl, rfl⟩

end

/-- What is found by its key is a row with a key. -/
theorem Selection.exists_of_keyPosition {key : Value} {rows : List Value} {i : Nat}
    (h : keyPosition key rows = some i) : ∃ row id, rows[i]? = some row ∧ row.id? = some id ∧
      id.strictEquals key = true := by
  obtain ⟨hlt, hany, -⟩ := List.findIdx?_eq_some_iff_getElem.mp h
  obtain ⟨id, hid, hequal⟩ := (Option.any_eq_true _ _).mp hany
  exact ⟨rows[i], id, List.getElem?_eq_getElem hlt, hid, hequal⟩

/-- An action that gives one row picks it from a stream by its position, or looks for its key. -/
theorem call_of_selection {e : Entry} (he : e ∈ catalogue) (hread : e.name ∉ Term.writers)
    {type : TypeTag} {args : List Argument} (receiver : Value)
    (h : e.type.resolve type ((args.head?).any Argument.isNumber) = .selection) :
    (type.isStream = true ∧
        ∃ index, e.implementation.call receiver args = Access.nthRow receiver index) ∨
      ∃ key, e.implementation.call receiver args = Selection.get receiver key := by
  have hnumber (hboth : (TypeTag.bracket.resolve type
      ((args.head?).any Argument.isNumber)) = .selection) :
      type.isStream = true ∧ ∃ n rest, args = .datum (.number n) :: rest := by
    have hbound := (resolve_bracket (by rw [hboth]; rfl)).1
    rw [Bool.and_eq_true] at hbound
    refine ⟨hbound.2, ?_⟩
    rcases args with _ | ⟨_ | v | run, rest⟩
    · cases hbound.1
    · cases hbound.1
    · cases v <;> first | exact ⟨_, _, rfl⟩ | cases hbound.1
    · cases hbound.1
  have hsequence : TypeTag.sequence.resolve type ((args.head?).any Argument.isNumber) ≠
      .selection := by
    unfold TypeTag.resolve
    dsimp only
    split <;> decide
  -- `bracket` and `nth` pick a row by a number and `get` looks for a key; no other reading action
  -- comes to this type
  have hentries := entry_of_isSelection he hread (by rw [h]; rfl)
  simp only [List.mem_append] at hentries
  rcases hentries with (haccess | hrange) | hselection
  · simp only [Access.entries, List.mem_cons, List.not_mem_nil, or_false] at haccess
    rcases haccess with rfl | rfl | rfl | rfl | rfl | rfl | rfl
    · obtain ⟨hstream, n, rest, rfl⟩ := hnumber h
      exact .inl ⟨hstream, .number n, rfl⟩
    · obtain ⟨hstream, n, rest, rfl⟩ := hnumber h
      exact .inl ⟨hstream, .number n, rfl⟩
    · cases h
    · exact absurd h hsequence
    · cases h
    · cases h
    · cases h
  · simp only [Range.entries, List.mem_cons, List.not_mem_nil, or_false] at hrange
    rcases hrange with rfl | rfl | rfl | rfl | rfl | rfl
    · exact absurd h hsequence
    · exact absurd h hsequence
    · cases h
    · cases h
    · exact absurd h hsequence
    · exact absurd h hsequence
  · simp only [Selection.entries, List.mem_cons, List.not_mem_nil, or_false] at hselection
    rcases hselection with rfl | rfl
    · exact .inr ⟨_, rfl⟩
    · cases h

namespace Term

variable {t : Term} {current : Option Value} {s next : State} {e : Evaluated}

/-- How a row comes to its position: it was looked for in its table, by identity or by key. -/
theorem exists_position_of_selection (h : t.mutates = false)
    (hrun : (t.evaluate current).runFrom s = (.ok e, next)) (htype : e.type = .selection) :
    ∃ name live, Selects s e name live ∧
      ((∃ hint, e.binding.rowIndex = Context.position hint e.value live) ∨
        ∃ key, e.binding.rowIndex = Selection.keyPosition key live ∧
          e.value = ((Selection.keyPosition key live).bind fun i => live[i]?).getD .null) := by
  obtain ⟨name, live, hselects⟩ := exists_selects h hrun (by rw [htype]; rfl)
  refine ⟨name, live, hselects, ?_⟩
  cases t with
  | table name =>
    rw [evaluate, evaluateIn] at hrun
    obtain ⟨rows, _, -, hdone⟩ := Eval.bind_ok hrun
    cases hdone
    cases htype
  | datum v =>
    rw [evaluate, evaluateIn] at hrun
    cases hrun
    cases htype
  | row =>
    cases current with
    | none =>
      rw [evaluate, evaluateIn] at hrun
      cases hrun
    | some v =>
      rw [evaluate, evaluateIn] at hrun
      cases hrun
      cases htype
  | array items =>
    rw [evaluate, evaluateIn] at hrun
    obtain ⟨vs, _, -, hdone⟩ := Eval.bind_ok hrun
    cases hdone
    cases htype
  | object fields =>
    rw [evaluate, evaluateIn] at hrun
    obtain ⟨vs, _, -, hdone⟩ := Eval.bind_ok hrun
    cases hdone
    cases htype
  | call action receiver args =>
    simp only [mutates, Bool.or_eq_false_iff, anyMutates_eq_false] at h
    obtain ⟨entry, ev, as, mid, ready, c, hentry, rfl, hreceiver, has, hcall, hresult, hbinding⟩ :=
      exists_of_evaluate_call hrun
    have hread : entry.name ∉ writers := by simpa using h.1.1
    rw [htype] at hresult hbinding
    -- neither the receiver nor the arguments have changed a table
    obtain rfl : mid = s := by
      have hstate := evaluate_state h.1.2 current s
      rwa [hreceiver] at hstate
    obtain rfl : ready = mid := by
      have hstate := (arguments_leave h.2 current mid rfl).1
      rw [Eval.runFrom] at has
      rwa [has] at hstate
    change e.binding = c.binding at hbinding
    rw [hbinding]
    have hbound : c.binding.table = some name := hbinding ▸ hselects.table_eq
    rcases call_of_selection hentry hread ev.value hresult.symm with
      ⟨hstream, index, heq⟩ | ⟨key, heq⟩
    · -- by position in the stream: looked for again in the rows that are there after the call
      rw [heq] at hcall
      obtain ⟨htable, live', hint, hrows, hindex⟩ := Access.nthRow_ok hstream hcall
      obtain ⟨name', hname, hlive⟩ := Context.rows_eq_ok.mp hrows
      cases (hbound.symm.trans htable).trans hname
      cases hselects.rows_eq.symm.trans hlive
      exact .inl ⟨hint, hindex⟩
    · -- by key: `get` takes a whole table, so what it searches are the rows of that table
      rw [heq] at hcall
      obtain ⟨hev, htable, rows, k, hvalue, hindex, hfound⟩ := Selection.get_ok hcall
      change ev.type = .table at hev
      obtain ⟨name', live', hfrom⟩ := exists_selects h.1.2 hreceiver (by rw [hev]; rfl)
      cases (hbound.symm.trans htable).trans hfrom.table_eq
      cases hselects.rows_eq.symm.trans hfrom.rows_eq
      have hall := hfrom.value
      rw [hev, hvalue] at hall
      cases hall
      exact .inr ⟨k, hindex, hfound⟩

/-- Of a term that does not write: a row set holds rows of its table, none more often than it is
there; a row that is not `null` is one of its table and bound to a position of the same row; and
`null` is bound to no position, unless it was picked from a table that holds it as a row. -/
theorem evaluate_faithful (h : t.mutates = false)
    (hdistinct : ∀ name rows, s.store.rows? name = some rows →
      ∀ row ∈ rows, row.distinctKeys = true)
    (hrun : (t.evaluate current).runFrom s = (.ok e, next)) :
    (e.type = .selectionArray → ∃ name live rows, e.binding.table = some name ∧
      s.store.rows? name = some live ∧ e.value = .array rows ∧ rows.Subperm live) ∧
    (e.type = .selection → ∃ name live, e.binding.table = some name ∧
      s.store.rows? name = some live ∧
      (e.value ≠ .null → e.value ∈ live ∧ ∃ i row, e.binding.rowIndex = some i ∧
        live[i]? = some row ∧ row.sameRow e.value = true) ∧
      (e.value = .null → ∀ i, e.binding.rowIndex = some i → live[i]? = some .null)) := by
  constructor
  · intro htype
    obtain ⟨name, live, hselects⟩ := exists_selects h hrun (by rw [htype]; rfl)
    have hvalue := hselects.value
    rw [htype] at hvalue
    obtain ⟨rows, hrows, hsub⟩ := hvalue
    exact ⟨name, live, rows, hselects.table_eq, hselects.rows_eq, hrows, hsub⟩
  · intro htype
    obtain ⟨name, live, hselects, hposition⟩ := exists_position_of_selection h hrun htype
    have hvalue := hselects.value
    rw [htype] at hvalue
    refine ⟨name, live, hselects.table_eq, hselects.rows_eq, fun hrow => ?_, fun hnull i hi => ?_⟩
    · -- the position need not be the one that was picked, but the row there is the same row
      have hmem : e.value ∈ live := hvalue.resolve_left hrow
      have hself := hdistinct name live hselects.rows_eq e.value hmem
      refine ⟨hmem, ?_⟩
      rcases hposition with ⟨hint, hindex⟩ | ⟨key, hindex, hfound⟩
      · obtain ⟨i, hi⟩ := exists_position hmem hself
        obtain ⟨row, hlive, hsame⟩ := exists_of_position hi
        exact ⟨i, row, hindex.trans hi, hlive, hsame⟩
      · cases hkey : Selection.keyPosition key live with
        | none =>
          rw [hkey] at hfound
          exact absurd hfound hrow
        | some i =>
          obtain ⟨row, -, hlive, -, -⟩ := Selection.exists_of_keyPosition hkey
          rw [hkey, Option.bind_some, hlive, Option.getD_some] at hfound
          refine ⟨i, row, hindex.trans hkey, hlive, ?_⟩
          rw [← hfound]
          exact Value.sameRow_self hself
    · rcases hposition with ⟨hint, hindex⟩ | ⟨key, hindex, hfound⟩
      · obtain ⟨row, hlive, hsame⟩ := exists_of_position (hindex.symm.trans hi)
        rw [hnull] at hsame
        rw [hlive, Value.eq_null_of_sameRow hsame]
      · -- a row that is found by its key is not `null`
        exfalso
        obtain ⟨row, id, hlive, hid, -⟩ :=
          Selection.exists_of_keyPosition (hindex.symm.trans hi)
        rw [← hindex, hi, Option.bind_some, hlive, Option.getD_some, hnull] at hfound
        rw [← hfound] at hid
        cases hid

/-- A query for the row at a position of what its receiver gives. -/
theorem evaluate_nth {receiver : Term} {ev : Evaluated} {rows : List Value} {row : Value} {n : Nat}
    (hreceiver : (receiver.evaluate none).runFrom s = (.ok ev, s)) (hvalue : ev.value = .array rows)
    (hrow : rows[n]? = some row) (hn : n ≤ 2 ^ 53) :
    ((call "nth" receiver [.datum (.number (.int n))]).evaluate none).runFrom s =
      let out := (Act.bindRow row n).runFrom ⟨ev.type, ev.binding, s⟩
      let type : TypeTag := if ev.type.isStream then .selection else .datum
      (out.1.map fun _ => ⟨row, type, if type.isSelection then out.2.binding else {}⟩,
        out.2.state) := by
  have hprepared : Prepared s receiver [.datum (.number (.int n))] ev
      [.datum (.number (.int n))] := ⟨hreceiver, rfl⟩
  have hindex : Access.wholeIndex (.number (.int n)) = .ok (n : Int) :=
    Access.wholeIndex_int (by rw [Int.natAbs_natCast]; exact hn)
  have hinvoke (index : Value) (c : Context) :
      (Registry.builtin.invoke "nth" (.array rows) [.datum index]).runFrom c =
        (Access.nthRow (.array rows) index).runFrom c := rfl
  rw [hprepared.evaluate_call (d := ⟨.one, .bracket, .unary Access.nth⟩) rfl,
    Registry.runFrom_apply, hvalue, hinvoke, Access.runFrom_nthRow hindex hrow, Act.runFrom_bind]
  dsimp only
  rcases (Act.bindRow row n).runFrom ⟨ev.type, ev.binding, s⟩ with ⟨_ | _, c⟩
  · rfl
  · rfl

/-- The first row of a row set is the second of its table, and is bound there. -/
theorem evaluate_faithful_nth :
    let row : Value := .object [("id", .bool true)]
    let other : Value := .object [("id", .bool false)]
    let s : State := ⟨⟨[("t", [row, other])]⟩, ⟨fun _ _ => ""⟩, 0⟩
    let rows : Term := .call "getAll" (.table "t") [.datum (.bool false)]
    ∃ e, ((call "nth" rows [.datum (.number (.int 0))]).evaluate none).runFrom s = (.ok e, s) ∧
      e.value = other ∧ e.binding.rowIndex = some 1 ∧
      ∃ live i found, s.store.rows? "t" = some live ∧
        e.binding.rowIndex = some i ∧ live[i]? = some found ∧ found.sameRow e.value = true := by
  intro row other s rows
  have hrows : (rows.evaluate none).runFrom s =
      (.ok ⟨.array [other], .selectionArray, { table := some "t" }⟩, s) := rfl
  have hrun : ((call "nth" rows [.datum (.number (.int 0))]).evaluate none).runFrom s =
      (.ok ⟨other, .selection, ⟨some "t", some 1, some (.bool false)⟩⟩, s) :=
    (evaluate_nth (n := 0) hrows rfl rfl (by omega)).trans rfl
  have hdistinct : ∀ name live, s.store.rows? name = some live →
      ∀ row ∈ live, row.distinctKeys = true := by
    intro name live hlive
    change [("t", [row, other])].lookup name = some live at hlive
    rw [Assoc.lookup_cons] at hlive
    split at hlive
    · cases hlive
      simp [row, other, Value.distinctKeys, Value.fieldsDistinct, Fields.contains, Fields.get?]
    · cases hlive
  obtain ⟨name, live, hname, hlive, hbound, -⟩ :=
    (evaluate_faithful rfl hdistinct hrun).2 rfl
  cases hname
  obtain ⟨-, i, found, hindex, hfound, hsame⟩ := hbound (by simp [other])
  exact ⟨_, hrun, rfl, rfl, live, i, found, hlive, hindex, hfound, hsame⟩

/-- A table may hold `null` as a row: picked by its position it is bound there. -/
theorem evaluate_null_row :
    let t : Term := .call "nth" (.table "t") [.datum (.number (.int 0))]
    let s : State := ⟨⟨[("t", [.null])]⟩, ⟨fun _ _ => ""⟩, 0⟩
    t.mutates = false ∧ ∃ e, (t.evaluate none).runFrom s = (.ok e, s) ∧ e.type = .selection ∧
      e.value = .null ∧ e.binding.rowIndex = some 0 := by
  intro t s
  have htable : ((Term.table "t").evaluate none).runFrom s = (.ok (.ofTable "t" [.null]), s) := rfl
  refine ⟨rfl, ⟨.null, .selection, ⟨some "t", some 0, none⟩⟩, ?_, rfl, rfl, rfl⟩
  exact (evaluate_nth (n := 0) htable rfl rfl (by omega)).trans rfl

end Term

end TableQuery
