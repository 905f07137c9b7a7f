import TableQuery.Proofs.Action.Patching
import TableQuery.Proofs.PrimaryKey.Keyed

namespace TableQuery

/-- A key that was drawn is not taken. -/
theorem KeySource.Fresh.hasKey_eq_false {source : KeySource} (h : source.Fresh) (n : Nat)
    (rows : List Value) : Mutation.hasKey (.string (source.key n rows)) rows = false := by
  apply List.any_eq_false.mpr
  intro row hrow
  have hnew := h n rows row hrow
  cases hid : row.id? with
  | none => simp
  | some id =>
    rw [hid] at hnew
    cases id <;> simp_all [Value.strictEquals_eq_equals, Value.equals]

structure Keyed (admits : Value → Prop) (s : State) : Prop where
  fresh : s.source.Fresh
  tables : ∀ name rows, s.store.rows? name = some rows → KeyedBy admits rows

theorem Store.rows_eq_ok {store : Store} {name : String} {rows : List Value} :
    store.rows name = .ok rows ↔ store.rows? name = some rows := by
  unfold Store.rows
  cases store.rows? name <;> simp

/-- The live rows are those of the bound table. -/
theorem Context.rows_eq_ok {c : Context} {rows : List Value} :
    c.rows = .ok rows ↔ ∃ name, c.binding.table = some name ∧
      c.state.store.rows? name = some rows := by
  unfold Context.rows Context.tableName
  cases c.binding.table with
  | none =>
    constructor
    · intro h
      cases h
    · rintro ⟨name, hname, -⟩
      cases hname
  | some name =>
    change c.state.store.rows name = .ok rows ↔ _
    rw [Store.rows_eq_ok]
    simp

/-- A table whose rows can be read can be written. -/
theorem Context.exists_runFrom_setRows {c : Context} {live : List Value} (h : c.rows = .ok live)
    (rows : List Value) : ∃ name, c.binding.table = some name ∧
      c.state.store.rows? name = some live ∧ (Act.setRows rows).runFrom c =
        (.ok (), { c with state := { c.state with store := c.state.store.load name rows } }) := by
  obtain ⟨name, hname, hlive⟩ := Context.rows_eq_ok.mp h
  refine ⟨name, hname, hlive, ?_⟩
  rw [Act.runFrom_setRows, hname]

variable {admits : Value → Prop} {type : TypeTag} {table : Option String} {receiver row new : Value}
  {rows : List Value} {arg : Argument}

namespace Keyed

theorem load {s : State} (h : Keyed admits s) (name : String) (hrows : KeyedBy admits rows) :
    Keyed admits { s with store := s.store.load name rows } := by
  refine ⟨h.fresh, fun other found hfound => ?_⟩
  rw [Store.rows?_load] at hfound
  split at hfound
  · cases hfound
    exact hrows
  · exact h.tables other found hfound

theorem freshKey {s : State} (h : Keyed admits s) (rows : List Value) :
    Keyed admits (s.freshKey rows).2 ∧
      Mutation.hasKey (.string (s.freshKey rows).1) rows = false :=
  ⟨⟨h.fresh, h.tables⟩, h.fresh.hasKey_eq_false s.drawn rows⟩

theorem rows_keeps : Keeps (Framed (Keyed admits) type table) (KeyedBy admits)
    (Act.ask Context.rows) := by
  refine Keeps.ask fun c hc rows hrows => ?_
  obtain ⟨name, -, hfound⟩ := Context.rows_eq_ok.mp hrows
  exact hc.state.tables name rows hfound

theorem setRows_keeps (h : KeyedBy admits rows) :
    Keeps (Framed (Keyed admits) type table) (fun _ => True) (Act.setRows rows) :=
  Keeps.setRows fun _ name hs => hs.load name h

end Keyed

/-- The names of a report are some of eight different ones, and no value in it is an object. -/
theorem Report.distinct_toValue (r : Report) : r.toValue.Distinct := by
  have hcount (name : String) (n : Option Nat) :
      (Fields.keys (n.toList.map fun n => (name, Value.ofNat n))).Sublist [name] := by
    cases n <;> simp [Fields.keys]
  have hvalue (name : String) (n : Option Nat) (pair : String × Value)
      (h : pair ∈ n.toList.map fun n => (name, Value.ofNat n)) : pair.2.Distinct := by
    obtain ⟨_, -, rfl⟩ := List.mem_map.mp h
    rfl
  refine Value.distinctKeys_object.mpr ⟨?_, fun pair hpair => ?_⟩
  · have hnames : (["errors"] ++ ["inserted"] ++ ["replaced"] ++ ["unchanged"] ++ ["deleted"] ++
        ["skipped"] ++ ["first_error"] ++ ["generated_keys"]).Nodup := by decide
    refine hnames.sublist ?_
    simp only [Fields.keys, List.map_append] at hcount ⊢
    refine (((((((hcount _ _).append (hcount _ _)).append (hcount _ _)).append (hcount _ _)).append
      (hcount _ _)).append (hcount _ _)).append ?_).append ?_
    · cases r.firstError <;> simp
    · cases r.generatedKeys <;> simp
  · simp only [List.mem_append] at hpair
    rcases hpair with ((((((h | h) | h) | h) | h) | h) | h) | h
    all_goals try exact hvalue _ _ pair h
    · obtain ⟨_, -, rfl⟩ := List.mem_map.mp h
      rfl
    · obtain ⟨keys, -, rfl⟩ := List.mem_map.mp h
      refine Value.distinctKeys_array.mpr fun item hitem => ?_
      obtain ⟨_, -, rfl⟩ := List.mem_map.mp hitem
      rfl

namespace Mutation

theorem checkRow_ok {fields : Fields} (h : checkRow row = .ok fields) :
    row = .object fields ∧
      ∀ id, Fields.get? primaryKey fields = some id → id.isValidKey = true := by
  unfold checkRow at h
  obtain ⟨found, hfound, hrest⟩ := exists_of_bind_ok h
  cases row <;> cases hfound
  dsimp only at hrest
  split at hrest
  · next id hid =>
    obtain ⟨_, hvalid, hdone⟩ := exists_of_bind_ok hrest
    cases hdone
    refine ⟨rfl, fun key hkey => ?_⟩
    unfold Selection.checkKey at hvalid
    split at hvalid
    · next hlegal =>
      rw [hid] at hkey
      cases hkey
      exact hlegal
    · cases hvalid
  · next hid =>
    cases hrest
    exact ⟨rfl, fun key hkey => by simp [hid] at hkey⟩

theorem insertRow_keeps (hadmits : Admission admits) {done : Inserted} {fields : Fields}
    (hdone : KeyedBy admits done.rows) (hdistinct : (Value.object fields).Distinct)
    (hlegal : ∀ id, Fields.get? primaryKey fields = some id → id.isValidKey = true) :
    Keeps (Framed (Keyed admits) type table) (fun d => KeyedBy admits d.rows)
      (insertRow done fields) := by
  unfold insertRow
  split
  · next id hid =>
    split
    · exact Keeps.pure hdone
    · next hfree =>
      have hrow : IsRow admits (.object fields) :=
        ⟨hdistinct, id, hid, hadmits.legal (hlegal id hid)⟩
      exact Keeps.pure (hdone.append hrow hid (by simpa using hfree))
  · refine Keeps.bind (Keeps.freshKey (Q := fun key => hasKey (.string key) done.rows = false)
      fun s hs => hs.freshKey done.rows) fun key hkey => ?_
    have hid : (Value.object (Fields.set primaryKey (.string key) fields)).id? =
        some (.string key) := by
      change Fields.get? primaryKey _ = _
      rw [Fields.get?_set, if_pos rfl]
    have hrow : IsRow admits (.object (Fields.set primaryKey (.string key) fields)) :=
      ⟨Value.hereditary_distinct.set _ hdistinct rfl, _, hid, hadmits.legal rfl⟩
    exact Keeps.pure (hdone.append hrow hid hkey)

theorem insert_keeps (hadmits : Admission admits) (receiver : Value) (options : Argument)
    (harg : arg.Good (Keyed admits) Value.Distinct) :
    Keeps (Framed (Keyed admits) type table) Value.Distinct (insert receiver arg options) := by
  refine Keeps.bind Keeps.check fun _ _ => ?_
  refine Keeps.bind (Keeps.resolve harg) fun given hgiven => ?_
  refine Keeps.bind (P := fun rows : List Fields => ∀ fields ∈ rows, (Value.object fields).Distinct
    ∧ ∀ id, Fields.get? primaryKey fields = some id → id.isValidKey = true) ?_ fun rows hrows => ?_
  · refine Keeps.ofExcept fun rows hrows fields hfields => ?_
    obtain ⟨row, hrow, hcheck⟩ := mem_of_mapM_ok hrows hfields
    obtain ⟨rfl, hlegal⟩ := checkRow_ok hcheck
    refine ⟨?_, hlegal⟩
    split at hrow
    · exact Value.hereditary_distinct.item hgiven hrow
    · exact List.mem_singleton.mp hrow ▸ hgiven
  · refine Keeps.bind Keyed.rows_keeps fun live hlive => ?_
    refine Keeps.bind (Keeps.foldlM (b := ⟨live, 0, []⟩) hlive fun done hdone fields hfields =>
      insertRow_keeps hadmits hdone (hrows fields hfields).1 (hrows fields hfields).2)
      fun done hdone => ?_
    exact Keeps.map (Keyed.setRows_keeps hdone) fun _ _ => Report.distinct_toValue _

/-- The row that is written at a position has the key of the row that is there. -/
theorem applyPatch_keeps (hadmits : Admission admits) {index : Nat} {patch : Fields}
    (hpatch : (Value.object patch).Distinct) :
    Keeps (Framed (Keyed admits) type table) (fun _ => True) (applyPatch index patch) := by
  refine Keeps.bind Keyed.rows_keeps fun rows hrows => ?_
  split
  · next fields hlive =>
    split
    · exact Keeps.pure trivial
    · next updated changed hupdate =>
      have hlive := hrows.getElem?_isRow ‹_›
      obtain ⟨hnew, hsame⟩ := isRow_update? hadmits hlive hpatch hupdate
      exact Keeps.map (Keyed.setRows_keeps (hrows.set ‹_› hnew hsame)) fun _ _ => trivial
  · exact Keeps.pure trivial

theorem update_keeps (hadmits : Admission admits) (options : Argument)
    (harg : arg.Good (Keyed admits) Value.Distinct) (hreceiver : receiver.Distinct) :
    Keeps (Framed (Keyed admits) type table) Value.Distinct (update receiver arg options) := by
  have happly (index : Nat) (patch : Fields) (hpatch : (Value.object patch).Distinct) :
      Keeps (Framed (Keyed admits) type table) (fun _ => True) (applyPatch index patch) :=
    applyPatch_keeps hadmits hpatch
  refine (update_of_applyPatch happly Value.hereditary_distinct hreceiver options harg).imp ?_
  rintro _ ⟨report, rfl, -⟩
  exact report.distinct_toValue

theorem deleteRow_keeps :
    Keeps (Framed (Keyed admits) type table) (fun _ => True) (deleteRow row) := by
  unfold deleteRow
  split
  · exact Keeps.pure trivial
  · refine Keeps.bind Keeps.check fun _ _ => ?_
    refine Keeps.bind Keeps.check fun index _ => ?_
    split
    · exact Keeps.pure trivial
    · refine Keeps.bind Keyed.rows_keeps fun rows hrows => ?_
      refine Keeps.bind (Keyed.setRows_keeps (hrows.sublist (List.eraseIdx_sublist _ _)))
        fun _ _ => ?_
      exact Keeps.map (Keeps.setRowIndex none) fun _ _ => trivial

theorem deleteRows_keeps :
    Keeps (Framed (Keyed admits) type table) (fun _ => True) (deleteRows rows) := by
  refine Keeps.bind Keeps.getContext fun c _ => ?_
  split
  · refine Keeps.bind Keyed.rows_keeps fun live _ => ?_
    exact Keeps.map (Keyed.setRows_keeps .nil) fun _ _ => trivial
  · refine Keeps.bind Keeps.check fun _ _ => ?_
    split
    · exact Keeps.pure trivial
    · refine Keeps.bind Keyed.rows_keeps fun live hlive => ?_
      exact Keeps.map (Keyed.setRows_keeps (hlive.sublist List.filter_sublist)) fun _ _ => trivial

theorem delete_keeps :
    Keeps (Framed (Keyed admits) type table) Value.Distinct (delete receiver) := by
  unfold delete
  split
  · exact Keeps.map deleteRows_keeps fun _ _ => Report.distinct_toValue _
  · exact Keeps.map deleteRow_keeps fun _ _ => Report.distinct_toValue _

theorem replacementKey_ok {v key : Value} (h : replacementKey v = .ok key) : v.id? = some key := by
  unfold replacementKey at h
  split at h
  · split at h <;> cases h
    assumption
  · cases h

/-- The replacement is written over the row that was found, in the same state, and has its key. -/
theorem overwrite_keeps {done : Tally} {key : Value} (hadmits : Admission admits)
    (hnew : new.Distinct) (hkey : new.id? = some key)
    (hold : (row.id?.any fun old => old.strictEquals key) = true) :
    Keeps (Framed (Keyed admits) type table) (fun _ => True)
      (do match ← Act.ask (Context.locate row) with
          | none => return done
          | some index =>
            Act.setRows ((← Act.ask Context.rows).set index new)
            return { done with replaced := done.replaced + 1 } : Act Tally) := by
  intro c hc
  refine ⟨?_, fun _ _ => trivial⟩
  change Framed (Keyed admits) type table (Act.runFrom _ c).2
  rw [Act.runFrom_bind, Act.runFrom_ask]
  -- nothing is written unless the row is found
  rcases hlocate : c.locate row with e | _ | index
  · exact hc
  · exact hc
  · obtain ⟨rows, hrows, hposition⟩ := exists_of_bind_ok hlocate
    obtain ⟨name, hname, hfound⟩ := Context.rows_eq_ok.mp hrows
    obtain ⟨live, hlive, hsame⟩ := exists_of_position (Except.ok.inj hposition)
    have hkeyed := hc.state.tables name rows hfound
    have hliveRow := hkeyed.getElem?_isRow hlive
    obtain ⟨id, hid, hadm⟩ := hliveRow.keyed
    cases hrowId : row.id? with
    | none => simp [hrowId] at hold
    | some old =>
      rw [sameRow_of_id hid hrowId] at hsame
      rw [hrowId, Option.any_some, Value.strictEquals_eq_equals] at hold
      have hequal := Value.equals_trans hsame hold
      have hwritten := hkeyed.set hlive ⟨hnew, key, hkey, hadmits.equal hequal hadm⟩
        ((sameRow_of_id hid hkey).trans hequal)
      dsimp only
      rw [Act.runFrom_bind, Act.runFrom_ask, hrows]
      dsimp only
      rw [Act.runFrom_bind, Act.runFrom_setRows, hname]
      exact ⟨hc.type_eq, hc.table_eq, hc.state.load name hwritten⟩

theorem replaceRow_keeps (hadmits : Admission admits) {done : Tally}
    (harg : arg.Good (Keyed admits) Value.Distinct) (hrow : row.Distinct) :
    Keeps (Framed (Keyed admits) type table) (fun _ => True) (replaceRow arg done row) := by
  refine Keeps.bind (Keeps.evalRow harg hrow) fun new hnew => ?_
  refine Keeps.bind (Keeps.ofExcept fun key hkey => replacementKey_ok hkey) fun key hkey => ?_
  split
  · exact Keeps.pure trivial
  · next hold =>
    split
    · exact Keeps.pure trivial
    · exact overwrite_keeps hadmits hnew hkey (by simpa using hold)

theorem replaceRows_keeps (hadmits : Admission admits)
    (harg : arg.Good (Keyed admits) Value.Distinct) (hrows : ∀ row ∈ rows, row.Distinct) :
    Keeps (Framed (Keyed admits) type table) (fun _ => True) (replaceRows rows arg) :=
  Keeps.map (Keeps.foldlM (Q := fun _ => True) trivial fun _ _ row hrow =>
    replaceRow_keeps hadmits harg (hrows row hrow)) fun _ _ => trivial

/-- The key of a replacement that is put in is whatever the value has under its name. -/
theorem replaceMissing_keeps {Q : Value → Prop}
    (hresolve : Keeps (Framed (Keyed admits) type table) Q (Act.resolve arg))
    (hkeys : ∀ new, Q new → new.Distinct ∧ ∀ key, new.id? = some key → admits key) :
    Keeps (Framed (Keyed admits) type table) (fun _ => True) (replaceMissing arg) := by
  refine Keeps.bind hresolve fun new hnew => ?_
  obtain ⟨hdistinct, hadm⟩ := hkeys new hnew
  refine Keeps.bind (Keeps.ofExcept fun key hkey => replacementKey_ok hkey) fun key hkey => ?_
  refine Keeps.bind Keyed.rows_keeps fun live hlive => ?_
  split
  · exact Keeps.pure trivial
  · next hfree =>
    have hrow : IsRow admits new := ⟨hdistinct, key, hkey, hadm key hkey⟩
    have happend := hlive.append hrow hkey (by simpa using hfree)
    exact Keeps.map (Keyed.setRows_keeps happend) fun _ _ => trivial

/-- Replacement, given what it does when there is no row. -/
theorem replace_keeps_of_missing (hadmits : Admission admits) (options : Argument)
    (harg : arg.Good (Keyed admits) Value.Distinct) (hreceiver : receiver.Distinct)
    (hmissing : receiver = .null → arg.isNull = false →
      Keeps (Framed (Keyed admits) type table) (fun _ => True) (replaceMissing arg)) :
    Keeps (Framed (Keyed admits) type table) Value.Distinct (replace receiver arg options) := by
  have hreport {x : Act Report} (hx : Keeps (Framed (Keyed admits) type table) (fun _ => True) x) :
      Keeps (Framed (Keyed admits) type table) Value.Distinct (do return (← x).toValue) :=
    Keeps.map hx fun _ _ => Report.distinct_toValue _
  refine Keeps.bind Keeps.check fun _ _ => ?_
  dsimp only
  split
  · split
    · exact hreport (Keeps.pure trivial)
    · exact hreport deleteRows_keeps
    · exact hreport deleteRow_keeps
  · next hvalue =>
    split
    · exact hreport (hmissing rfl (by simpa using hvalue))
    · exact hreport (replaceRows_keeps hadmits harg (Value.distinctKeys_array.mp hreceiver))
    · exact hreport (replaceRows_keeps hadmits harg (by simpa using hreceiver))

/-- The mutations keep the keys apart; a replacement does if any value may be a key. -/
theorem entries_keep (hadmits : Admission admits) {e : Entry} (he : e ∈ entries)
    (hreplace : e.name = "replace" → ∀ key, admits key) :
    e.implementation.Keeps (Keyed admits) Value.Distinct := by
  have hgood {args : List Argument} (h : ∀ a ∈ args, a.Good (Keyed admits) Value.Distinct) :=
    Argument.good_getD h 0
  simp only [entries, List.mem_cons, List.not_mem_nil, or_false] at he
  -- no mutation looks at its options
  rcases he with rfl | rfl | rfl | rfl
  · exact fun receiver _ _ _ _ h => insert_keeps hadmits receiver .undefined (hgood h)
  · exact fun _ _ _ _ hv h => update_keeps hadmits .undefined (hgood h) hv
  · intro _ _ _ _ hv h
    refine replace_keeps_of_missing hadmits .undefined (hgood h) hv fun _ _ => ?_
    exact replaceMissing_keeps (Keeps.resolve (hgood h)) fun new hnew =>
      ⟨hnew, fun key _ => hreplace rfl key⟩
  · exact fun _ _ _ _ _ _ => delete_keeps

end Mutation

end TableQuery
