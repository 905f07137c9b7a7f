import TableQuery.Proofs.Action.Accounting
import TableQuery.Proofs.Action.Replacement
import TableQuery.Proofs.Selection.Selected

/-!
Rows that a replacement loses. An update counts every row that it is given, those that it does not
find again among them (`Mutation.update_counts`). A replacement does not count a row that is gone
when its value is known: those rows are exactly what its report falls short by, and if the values
are only read they are rows that were not in the table at the start (`Mutation.replace_counts`).
-/

namespace TableQuery

def Value.rowsCounted (report : Value) : Nat :=
  report.counter "errors" + report.counter "replaced" + report.counter "unchanged" +
    report.counter "skipped"

theorem Report.rowsCounted_toValue (r : Report) : r.toValue.rowsCounted =
    r.errors.getD 0 + r.replaced.getD 0 + r.unchanged.getD 0 + r.skipped.getD 0 := by
  rw [Value.rowsCounted, counter_errors, counter_replaced, counter_unchanged, counter_skipped]

def State.Distinct (s : State) : Prop :=
  ∀ name rows, s.store.rows? name = some rows → ∀ row ∈ rows, row.Distinct

def Context.Finds (row : Value) (c : Context) : Prop :=
  ∃ live, c.rows = .ok live ∧ ∃ stored ∈ live, stored.sameRow row = true

theorem Context.rows_congr {c next : Context} (hbinding : next.binding = c.binding)
    (hstore : next.state.store = c.state.store) (htype : next.type = c.type) :
    next.rows = c.rows := by
  unfold Context.rows Context.tableName
  rw [hbinding, hstore, htype]

namespace Mutation

open Act

variable {value options arg : Argument} {row receiver v : Value} {rows : List Value}
  {done tally : Tally} {c c' : Context}

def Tally.total (t : Tally) : Nat := t.errors + t.replaced + t.unchanged

theorem Tally.rowsCounted_report (t : Tally) : t.report.toValue.rowsCounted = t.total :=
  Report.rowsCounted_toValue t.report

section Update

/-- A row that is gone counts as unchanged. -/
theorem patchRow_total {patch : Fields}
    (h : (patchRow done row patch).runFrom c = (.ok tally, c')) : tally.total = done.total + 1 := by
  obtain ⟨found, mid, -, hrest⟩ := bind_ok h
  unfold Tally.total
  rcases found with _ | index
  · cases hrest
    dsimp only
    omega
  · obtain ⟨outcome, _, -, hcount⟩ := bind_ok hrest
    rcases outcome with _ | _ | _ <;> cases hcount <;> dsimp only <;> omega

theorem updateRows_counts {report : Report}
    (h : (updateRows rows arg).runFrom c = (.ok report, c')) :
    report.toValue.rowsCounted = rows.length := by
  obtain ⟨_, _, -, hrest⟩ := bind_ok h
  split at hrest
  · cases hrest
    rw [Tally.rowsCounted_report]
    exact Nat.zero_add _
  · obtain ⟨patches, mid, hpatches, hloop⟩ := bind_ok hrest
    obtain ⟨tally, _, hfold, hdone⟩ := bind_ok hloop
    cases hdone
    have hlength : patches.length = rows.length :=
      (Keeps.length_mapM _ rows _ trivial).2 patches (congrArg Prod.fst hpatches)
    have htotal : tally.total = (rows.zip patches).length := by
      refine foldlM_ok (fun seen tally _ => tally.total = seen.length) ?_ rfl hfold
      intro seen pair _ before after _ _ _ hbefore hrow
      rw [patchRow_total hrow, hbefore, List.length_append, List.length_singleton]
    rw [Tally.rowsCounted_report, htotal, List.length_zip, hlength, Nat.min_self]

theorem updateRow_counts {report : Report} (hrow : row.isNull = false)
    (h : (updateRow row arg).runFrom c = (.ok report, c')) : report.toValue.rowsCounted = 1 := by
  rw [Report.rowsCounted_toValue]
  obtain ⟨_, _, -, hrest⟩ := bind_ok h
  rw [if_neg (by simp [hrow])] at hrest
  obtain ⟨_, _, -, hrest⟩ := bind_ok hrest
  obtain ⟨_, _, -, hrest⟩ := bind_ok hrest
  obtain ⟨found, _, -, hrest⟩ := bind_ok hrest
  rcases found with _ | index
  · cases hrest
    rfl
  · obtain ⟨outcome, _, -, hcount⟩ := bind_ok hrest
    rcases outcome with _ | _ | _ <;> cases hcount <;> rfl

/-- An update counts every row that it is given once, found again or not. -/
theorem update_counts (hreceiver : receiver.isNull = false)
    (h : (update receiver arg options).runFrom c = (.ok v, c')) :
    v.rowsCounted = (selectedRows receiver).length := by
  unfold update at h
  split at h
  · obtain ⟨report, _, hrows, hdone⟩ := bind_ok h
    cases hdone
    exact updateRows_counts hrows
  · next hother =>
    obtain ⟨report, _, hrow, hdone⟩ := bind_ok h
    cases hdone
    have hone : selectedRows receiver = [receiver] := by
      cases receiver <;> first | rfl | exact absurd rfl (hother _) | cases hreceiver
    rw [hone, updateRow_counts hreceiver hrow]
    rfl

end Update

/-- Whether a row counts nowhere: its value has its key and differs from it, and by the time the
value is known the row is not found in the table. -/
def isLost (value : Argument) (row : Value) (c : Context) : Bool :=
  match (evalRow row value).runFrom c with
  | (.ok new, next) =>
    row.id?.any (fun old => new.id?.any old.strictEquals) && !row.equals new &&
      (next.locate row).toOption == some none
  | _ => false

def lostRows (value : Argument) : List Value → Context → List Value
  | [], _ => []
  | row :: rest, c =>
    let lost := lostRows value rest ((replaceRow value ⟨0, 0, 0⟩ row).runFrom c).2
    if isLost value row c then row :: lost else lost

/-- What a row does to the tables does not depend on the rows counted before. -/
theorem replaceRow_next (done : Tally) : ((replaceRow value done row).runFrom c).2 =
    ((replaceRow value ⟨0, 0, 0⟩ row).runFrom c).2 := by
  unfold replaceRow
  rw [runFrom_bind, runFrom_bind]
  rcases (evalRow row value).runFrom c with ⟨_ | new, mid⟩
  · rfl
  dsimp only
  rw [runFrom_bind, runFrom_bind]
  rcases (ofExcept (replacementKey new) : Act Value).runFrom mid with ⟨_ | key, mid⟩
  · rfl
  dsimp only
  -- the checks of the key and of the value are the same for both
  split
  · rfl
  split
  · rfl
  rw [runFrom_bind, runFrom_bind]
  rcases (ask (Context.locate row)).runFrom mid with ⟨_ | _ | index, mid⟩
  · rfl
  · rfl
  dsimp only
  rw [runFrom_bind, runFrom_bind]
  rcases (ask Context.rows).runFrom mid with ⟨_ | live, mid⟩
  · rfl
  dsimp only
  rw [runFrom_bind, runFrom_bind]
  rcases (setRows (live.set index new)).runFrom mid with ⟨_ | _, mid⟩ <;> rfl

/-- One row is counted once, or lost. -/
theorem replaceRow_total (h : (replaceRow value done row).runFrom c = (.ok tally, c')) :
    tally.total + (if isLost value row c then 1 else 0) = done.total + 1 := by
  obtain ⟨new, _, heval, hchecks⟩ := bind_ok h
  obtain ⟨key, mid, hread, hwrite⟩ := bind_ok hchecks
  obtain ⟨hkey, rfl⟩ := runFrom_ofExcept_ok hread
  have hid : new.id? = some key := replacementKey_ok hkey
  have hlost : isLost value row c = (row.id?.any (fun old => old.strictEquals key) &&
      !row.equals new && (mid.locate row).toOption == some none) := by
    rw [isLost, heval]
    simp only [hid, Option.any_some]
  rw [hlost]
  -- refused for its key, left as it is, or written if it is still found
  unfold Tally.total
  split at hwrite
  · next hother =>
    cases hwrite
    simp only [Bool.not_eq_true'] at hother
    simp only [hother, Bool.false_and, Bool.false_eq_true, if_false]
    omega
  split at hwrite
  · next hsame =>
    cases hwrite
    simp only [hsame, Bool.not_true, Bool.and_false, Bool.false_and, Bool.false_eq_true, if_false]
    omega
  next hkeeps hdiffers =>
  have hold : (row.id?.any fun old => old.strictEquals key) = true := by simpa using hkeeps
  have hnew : row.equals new = false := by simpa using hdiffers
  obtain ⟨found, _, hfound, hput⟩ := bind_ok hwrite
  obtain ⟨hlocate, rfl⟩ := runFrom_ask_ok hfound
  rw [hold, hnew, hlocate]
  rcases found with _ | index
  · cases hput
    rfl
  · obtain ⟨live, _, -, hset⟩ := bind_ok hput
    obtain ⟨_, _, -, hdone⟩ := bind_ok hset
    cases hdone
    have hfoundRow : ((Except.ok (some index) : Except Error (Option Nat)).toOption == some none) =
        false := rfl
    simp only [hfoundRow, Bool.and_false, Bool.false_eq_true, if_false]
    omega

/-- The rows counted and the rows lost make up the rows given; the induction is on the rows to
come. -/
theorem replaceRows_total (h : (rows.foldlM (replaceRow value) done).runFrom c = (.ok tally, c')) :
    tally.total + (lostRows value rows c).length = done.total + rows.length := by
  induction rows generalizing done c with
  | nil =>
    cases h
    rfl
  | cons row rest ih =>
    rw [List.foldlM_cons] at h
    obtain ⟨mid, next, hrow, hrest⟩ := bind_ok h
    have hnext : ((replaceRow value ⟨0, 0, 0⟩ row).runFrom c).2 = next := by
      rw [← replaceRow_next done, hrow]
    have hone := replaceRow_total hrow
    have hlater := ih hrest
    rw [lostRows, hnext, List.length_cons]
    split at hone
    · next hlost =>
      rw [if_pos hlost, List.length_cons]
      omega
    · next hlost =>
      rw [if_neg hlost]
      omega

theorem isLost_iff : isLost value row c = true ↔ ∃ new next,
    (evalRow row value).runFrom c = (.ok new, next) ∧ SameKey row new ∧
      row.equals new = false ∧ next.locate row = .ok none := by
  unfold isLost
  rcases (evalRow row value).runFrom c with ⟨e | new, next⟩
  · simp
  have hlocate : ((next.locate row).toOption == some none) = true ↔
      next.locate row = .ok none := by
    rcases next.locate row with _ | _ | i
    · simp [Except.toOption]
    · simp [Except.toOption]
    · simp [Except.toOption]
  have hkey : (row.id?.any fun old => new.id?.any old.strictEquals) = true ↔ SameKey row new := by
    unfold SameKey
    rcases row.id? with _ | x <;> rcases new.id? with _ | y <;>
      simp [Value.strictEquals_eq_equals]
  simp only [Bool.and_eq_true, hkey, hlocate, Bool.not_eq_true']
  constructor
  · rintro ⟨⟨hsame, hdiffer⟩, hnone⟩
    exact ⟨new, next, rfl, hsame, hdiffer, hnone⟩
  · rintro ⟨_, _, hrun, hsame, hdiffer, hnone⟩
    cases hrun
    exact ⟨⟨hsame, hdiffer⟩, hnone⟩

/-- A row that is found nowhere in the table is not held by it. -/
theorem not_finds_of_locate (h : c.locate row = .ok none) : ¬ c.Finds row := by
  rintro ⟨live, hlive, stored, hstored, hsame⟩
  rw [Context.locate, hlive] at h
  have hposition : Context.position c.binding.rowIndex row live = none := Except.ok.inj h
  exact position_ne_none_of_mem hstored hsame hposition

/-- A lost row is one of those given and has a key. -/
theorem exists_of_mem_lostRows (h : row ∈ lostRows value rows c) :
    row ∈ rows ∧ ∃ key, row.id? = some key := by
  induction rows generalizing c with
  | nil => cases h
  | cons first rest ih =>
    have hlater (next : Context) (hmem : row ∈ lostRows value rest next) :
        row ∈ first :: rest ∧ ∃ key, row.id? = some key :=
      (ih hmem).imp (List.mem_cons_of_mem _) id
    rw [lostRows] at h
    split at h
    · next hlost =>
      rcases List.mem_cons.mp h with rfl | hmem
      · obtain ⟨_, _, -, ⟨key, _, hkey, -⟩, -⟩ := isLost_iff.mp hlost
        exact ⟨List.mem_cons_self, key, hkey⟩
      · exact hlater _ hmem
    · exact hlater _ h

section Reading

variable (hvalue : ReadsOnly value) (hgood : value.Good State.Distinct Value.Distinct)

include hgood

theorem replaceRow_distinct (hrow : row.Distinct) (hc : c.state.Distinct)
    (h : (replaceRow value done row).runFrom c = (.ok tally, c')) : c'.state.Distinct := by
  have hrows : Keeps (Framed State.Distinct c.type c.binding.table)
      (fun live => ∀ stored ∈ live, stored.Distinct) (ask Context.rows) := by
    apply Keeps.ask
    intro mid hmid live hlive
    obtain ⟨name, -, hfound⟩ := Context.rows_eq_ok.mp hlive
    exact hmid.state name live hfound
  have hkeeps : Keeps (Framed State.Distinct c.type c.binding.table) (fun _ => True)
      (replaceRow value done row) := by
    refine Keeps.bind (Keeps.evalRow hgood hrow) fun new hnew => ?_
    refine Keeps.bind (P := fun _ => True) (Keeps.ofExcept fun _ _ => trivial) fun key _ => ?_
    split
    · exact Keeps.pure trivial
    split
    · exact Keeps.pure trivial
    refine Keeps.bind Keeps.check fun found _ => ?_
    split
    · exact Keeps.pure trivial
    · next index =>
      refine Keeps.bind hrows fun live hlive => Keeps.map (P := fun _ => True) ?_ fun _ _ => trivial
      -- the value is written over one row, the others are as they were
      apply Keeps.setRows
      intro s name hs other rows hother
      dsimp only at hother
      rw [Store.rows?_load] at hother
      split at hother
      · cases hother
        intro stored hstored
        rcases List.mem_or_eq_of_mem_set hstored with hold | rfl
        · exact hlive stored hold
        · exact hnew
      · exact hs other rows hother
  have hnext : Framed State.Distinct c.type c.binding.table
      ((replaceRow value done row).runFrom c).2 := (hkeeps c ⟨rfl, rfl, hc⟩).1
  rw [h] at hnext
  exact hnext.state

include hvalue

/-- A row with a key that is in the table stays there: the row that is written over keeps its
key. -/
theorem replaceRow_finds {other : Value} {key : Value} (hrow : row.Distinct)
    (hc : c.state.Distinct) (hother : other.Distinct) (hkey : other.id? = some key)
    (h : (replaceRow value done row).runFrom c = (.ok tally, c')) (hfinds : c.Finds other) :
    c'.Finds other := by
  have hnext := replaceRow_distinct hgood hrow hc h
  obtain ⟨live, hlive, stored, hstored, hsame⟩ := hfinds
  obtain ⟨htype, hbinding, ⟨-, hstore⟩ | hwritten⟩ := replaceRow_ok hvalue h
  · refine ⟨live, ?_, stored, hstored, hsame⟩
    rw [Context.rows_congr hbinding hstore htype, hlive]
  · obtain ⟨_, _, index, new, hname', hrows', hposition, hnew, -, -, hstore⟩ := hwritten
    obtain ⟨name, hname, hrows⟩ := Context.rows_eq_ok.mp hlive
    obtain rfl := Option.some.inj (hname.symm.trans hname')
    obtain rfl := Option.some.inj (hrows.symm.trans hrows')
    have hwrittenRows : c'.state.store.rows? name = some (live.set index new) := by
      rw [hstore, Store.rows?_load, if_pos rfl]
    refine ⟨live.set index new, ?_, ?_⟩
    · exact Context.rows_eq_ok.mpr ⟨name, by rw [hbinding, hname], hwrittenRows⟩
    obtain ⟨found, hfound, hfoundRow⟩ := exists_of_position hposition
    have hbound := (List.getElem?_eq_some_iff.mp hfound).1
    obtain ⟨k, hk⟩ := List.mem_iff_getElem?.mp hstored
    by_cases hik : index = k
    -- the row that was written over is the one that is looked for
    · subst hik
      obtain rfl := Option.some.inj (hk.symm.trans hfound)
      have hmem : new ∈ live.set index new := List.mem_set hbound new
      have hnewDistinct := hnext name _ hwrittenRows new hmem
      have hdistinct := hc name live hrows stored hstored
      obtain ⟨x, hx⟩ : ∃ x, row.id? = some x := hnew.imp fun x ⟨_, hx, _⟩ => hx
      have hfirst : SameKey stored row := .of_sameRow_id hdistinct hrow hx hfoundRow
      have hlooked : SameKey stored other := .of_sameRow_id hdistinct hother hkey hsame
      have hkept : SameKey new stored := (hfirst.trans hnew).symm hdistinct hnewDistinct
      exact ⟨new, hmem, (hkept.trans hlooked).sameRow⟩
    · refine ⟨stored, ?_, hsame⟩
      apply List.mem_of_getElem? (i := k)
      rw [List.getElem?_set_ne hik, hk]

/-- Where the values are only read, a row that is lost was not in the table at the start. The
induction is on the rows to come: what is in the table is there at every later turn. -/
theorem not_finds_of_mem_lostRows (hrows : ∀ row ∈ rows, row.Distinct) (hc : c.state.Distinct)
    (h : (rows.foldlM (replaceRow value) done).runFrom c = (.ok tally, c')) :
    ∀ row ∈ lostRows value rows c, ¬ c.Finds row := by
  induction rows generalizing done c with
  | nil => simp [lostRows]
  | cons row rest ih =>
    rw [List.foldlM_cons] at h
    obtain ⟨between, next, hrow, hrest⟩ := bind_ok h
    have hdistinct := hrows row List.mem_cons_self
    have hlater : ∀ other ∈ lostRows value rest next, ¬ next.Finds other :=
      ih (fun r hr => hrows r (List.mem_cons_of_mem _ hr))
        (replaceRow_distinct hgood hdistinct hc hrow) hrest
    -- a row that is there at the start is still found when its turn comes
    have hstart : ∀ other ∈ lostRows value rest next, ¬ c.Finds other := by
      intro other hmem hfinds
      obtain ⟨hgiven, key, hkey⟩ := exists_of_mem_lostRows hmem
      have hother := hrows other (List.mem_cons_of_mem _ hgiven)
      exact hlater other hmem
        (replaceRow_finds hvalue hgood hdistinct hc hother hkey hrow hfinds)
    have hnext : ((replaceRow value ⟨0, 0, 0⟩ row).runFrom c).2 = next := by
      rw [← replaceRow_next done, hrow]
    intro other hmem
    rw [lostRows, hnext] at hmem
    split at hmem
    · next hlost =>
      rcases List.mem_cons.mp hmem with rfl | hmem
      · obtain ⟨new, mid, heval, -, -, hnone⟩ := isLost_iff.mp hlost
        obtain ⟨htype, hbinding, hstore⟩ := evalRow_frame hvalue heval
        rintro ⟨live, hlive, hstored⟩
        apply not_finds_of_locate hnone
        exact ⟨live, by rw [Context.rows_congr hbinding hstore htype, hlive], hstored⟩
      · exact hstart other hmem
    · exact hstart other hmem

end Reading

/-- The report of a replacement by values is the tally of its loop. -/
theorem exists_tally_of_replace (hreceiver : receiver.isNull = false)
    (hvalue : value.isNull = false) (h : (replace receiver value options).runFrom c = (.ok v, c')) :
    ∃ tally : Tally,
      ((selectedRows receiver).foldlM (replaceRow value) ⟨0, 0, 0⟩).runFrom c = (.ok tally, c') ∧
        v = tally.report.toValue := by
  obtain ⟨_, mid, hselection, hrest⟩ := bind_ok h
  obtain ⟨-, rfl⟩ := runFrom_ask_ok hselection
  rw [if_neg (by simp [hvalue])] at hrest
  have hloop {rows : List Value} (hrun : (do
        let report ← replaceRows rows value
        return report.toValue : Act Value).runFrom mid = (.ok v, c')) :
      ∃ tally : Tally,
        (rows.foldlM (replaceRow value) ⟨0, 0, 0⟩).runFrom mid = (.ok tally, c') ∧
          v = tally.report.toValue := by
    obtain ⟨report, _, hrows, hvalue⟩ := bind_ok hrun
    cases hvalue
    obtain ⟨tally, _, hfold, hreport⟩ := bind_ok hrows
    cases hreport
    exact ⟨tally, hfold, rfl⟩
  -- every receiver but an array is one row
  cases receiver with
  | null => cases hreceiver
  | _ => exact hloop hrest

/-- A replacement by values counts the rows that it is given less those that it loses, so it
accounts for every row exactly if it loses none. Values that are only read lose no row that is in
the table. -/
theorem replace_counts (hreceiver : receiver.isNull = false) (hvalue : value.isNull = false)
    (h : (replace receiver value options).runFrom c = (.ok v, c')) :
    v.rowsCounted + (lostRows value (selectedRows receiver) c).length =
        (selectedRows receiver).length ∧
      (v.rowsCounted = (selectedRows receiver).length ↔
        lostRows value (selectedRows receiver) c = []) ∧
      (ReadsOnly value → value.Good State.Distinct Value.Distinct → c.state.Distinct →
        (∀ row ∈ selectedRows receiver, row.Distinct) →
        (∀ row ∈ lostRows value (selectedRows receiver) c, ¬ c.Finds row) ∧
          ((∀ row ∈ selectedRows receiver, c.Finds row) →
            v.rowsCounted = (selectedRows receiver).length)) := by
  obtain ⟨tally, hfold, rfl⟩ := exists_tally_of_replace hreceiver hvalue h
  have htotal := replaceRows_total hfold
  rw [Tally.rowsCounted_report]
  have hzero : Tally.total ⟨0, 0, 0⟩ = 0 := rfl
  rw [hzero, Nat.zero_add] at htotal
  have hiff : tally.total = (selectedRows receiver).length ↔
      lostRows value (selectedRows receiver) c = [] := by
    rw [← List.length_eq_zero_iff]
    omega
  refine ⟨htotal, hiff, fun hreads hgood hc hrows => ?_⟩
  have hmissing := not_finds_of_mem_lostRows hreads hgood hrows hc hfold
  refine ⟨hmissing, fun hfinds => hiff.mpr ?_⟩
  apply List.eq_nil_iff_forall_not_mem.mpr
  intro row hlost
  exact hmissing row hlost (hfinds row (exists_of_mem_lostRows hlost).1)

/-- Both rows are replaced by objects with their keys. -/
theorem replace_counts_written :
    let first : Value := .object [("id", .bool true)]
    let second : Value := .object [("id", .bool false)]
    let e : Term := .object [("id", .call "bracket" .row [.datum (.string "id")]),
      ("v", .datum (.string "x"))]
    let value : Argument := .deferred fun row => e.run row
    let c : Context := ⟨.table, { table := some "t" },
      ⟨⟨[("t", [first, second])]⟩, ⟨fun _ _ => ""⟩, 0⟩⟩
    ∃ v c', (replace (.array [first, second]) value .undefined).runFrom c = (.ok v, c') ∧
      v.rowsCounted = 2 := by
  intro first second e value c
  obtain ⟨v, hv⟩ : ∃ v, ((replace (.array [first, second]) value .undefined).runFrom c).1 = .ok v :=
    ⟨(Tally.report ⟨2, 0, 0⟩).toValue, by cbv⟩
  have hgood : value.Good State.Distinct Value.Distinct := by
    intro row hrow
    apply Term.runIn_keeps Value.hereditary_distinct (fun _ hs => hs) e (by decide) ?_ hrow
    exact Term.actions_keep Value.hereditary_distinct rfl
  have hc : c.state.Distinct := by
    intro name rows hrows
    have hname : (if name = "t" then some [first, second] else none) = some rows :=
      (Assoc.lookup_cons ..).symm.trans hrows
    split at hname <;> cases hname
    decide
  have hfinds : ∀ row ∈ [first, second], c.Finds row := by
    intro row hrow
    refine ⟨[first, second], rfl, row, hrow, Value.sameRow_self ?_⟩
    exact hc "t" _ rfl row hrow
  have hrun : (replace (.array [first, second]) value .undefined).runFrom c =
      (.ok v, ((replace (.array [first, second]) value .undefined).runFrom c).2) := Prod.ext hv rfl
  obtain ⟨-, -, hreads⟩ := replace_counts rfl rfl hrun
  exact ⟨v, _, hrun, (hreads (readsOnly_deferred rfl) hgood hc (hc "t" _ rfl)).2 hfinds⟩

/-- The value of each row empties the table first, so neither row is found again and the report
tells of none. -/
theorem not_counted_emptied :
    let first : Value := .object [("id", .bool true)]
    let second : Value := .object [("id", .bool false)]
    let value : Argument := .deferred fun row => (Term.object
      [("id", .call "bracket" .row [.datum (.string "id")]),
        ("gone", .call "delete" (.table "t") [])]).run row
    let c : Context := ⟨.table, { table := some "t" },
      ⟨⟨[("t", [first, second])]⟩, ⟨fun _ _ => ""⟩, 0⟩⟩
    let out := (replace (.array [first, second]) value .undefined).runFrom c
    out.1 = .ok (Tally.report ⟨0, 0, 0⟩).toValue ∧
      (Tally.report ⟨0, 0, 0⟩).toValue.rowsCounted = 0 ∧
      out.2.state.store.rows? "t" = some [] ∧
      lostRows value [first, second] c = [first, second] := by
  intro first second value c out
  exact ⟨by cbv, Tally.rowsCounted_report _, by cbv, by cbv⟩

end Mutation

end TableQuery
