import TableQuery.Proofs.Action.Replacement
import TableQuery.Proofs.Selection.Deletion

/-!
Replacement of rows in turn. The value of a row is taken after the rows before it have been
written, so what a replacement of a whole table leaves is a recursion over the rows that hands on
the table (`Mutation.runFrom_replaceRows`). It is what taking all values first would leave exactly
if no value differs for the rows written before it (`Mutation.replaceInTurn_iff`).
-/

namespace TableQuery

namespace Mutation

open Act

def replaceOne (new : Except Error Value) (row : Value) (tally : Tally) :
    Except Error (Value × Tally) := do
  let new ← new
  let key ← replacementKey new
  if !row.id?.any fun old => old.strictEquals key then
    return (row, { tally with errors := tally.errors + 1 })
  if row.equals new then return (row, { tally with unchanged := tally.unchanged + 1 })
  return (new, { tally with replaced := tally.replaced + 1 })

def replaceInTurn (value : List Value → Value → Except Error Value) (done : List Value) :
    List Value → Tally → Except Error Tally × List Value
  | [], tally => (.ok tally, done)
  | row :: rest, tally =>
    match replaceOne (value (done ++ row :: rest) row) row tally with
    | .error e => (.error e, done ++ row :: rest)
    | .ok (now, tally) => replaceInTurn value (done ++ [now]) rest tally

def Tally.settle (new : Value → Value) (rows : List Value) (t : Tally) : Tally where
  replaced := t.replaced + rows.countP fun row => !row.equals (new row)
  unchanged := t.unchanged + rows.countP fun row => row.equals (new row)
  errors := t.errors

theorem Tally.settle_cons (new : Value → Value) (row : Value) (rest : List Value) (t : Tally) :
    t.settle new (row :: rest) = (t.settle new [row]).settle new rest := by
  simp only [settle, List.countP_cons, List.countP_nil]
  congr 1 <;> omega

section One

variable {x : Except Error Value} {row now v w : Value} {t t' : Tally} {new : Value → Value}

/-- A new value with the key of the row takes its place, unless it is equal to the row. -/
theorem replaceOne_of_sameKey (h : SameKey row w) (t : Tally) :
    replaceOne (.ok w) row t = .ok (if row.equals w then
      (row, { t with unchanged := t.unchanged + 1 })
    else (w, { t with replaced := t.replaced + 1 })) := by
  obtain ⟨old, key, hold, hkey, hequal⟩ := h
  have hread : replacementKey w = .ok key := by
    cases w <;> try cases hkey
    next fields =>
    have hget : Fields.get? primaryKey fields = some key := hkey
    simp only [replacementKey, hget]
  simp only [replaceOne, bind, Except.bind, hread, hold, Option.any_some,
    Value.strictEquals_eq_equals, hequal]
  cases row.equals w <;> rfl

/-- A row that does not fail is in error and stays, or has a new value with its key. -/
theorem replaceOne_cases (h : replaceOne x row t = .ok (now, t')) :
    ∃ w, x = .ok w ∧ ((now = row ∧ t' = { t with errors := t.errors + 1 }) ∨ SameKey row w) := by
  obtain ⟨w, rfl, hchecks⟩ := exists_of_bind_ok h
  refine ⟨w, rfl, ?_⟩
  obtain ⟨key, hkey, hrest⟩ := exists_of_bind_ok hchecks
  split at hrest
  · cases hrest
    exact .inl ⟨rfl, rfl⟩
  · next hold => exact .inr (sameKey_of_replacementKey hkey (by simpa using hold))

theorem replaceOne_errors_le (h : replaceOne x row t = .ok (now, t')) : t.errors ≤ t'.errors := by
  obtain ⟨w, rfl, ⟨-, rfl⟩ | hkey⟩ := replaceOne_cases h
  · exact Nat.le_succ _
  · rw [replaceOne_of_sameKey hkey] at h
    split at h
    · cases h
      exact le_rfl
    · cases h
      exact le_rfl

/-- A value equal to the known one: the row settles as with that one. -/
theorem replaceOne_of_equals (hnew : (new row).Distinct) (hw : w.Distinct)
    (hkey : SameKey row (new row)) (hequal : w.equals (new row) = true) (t : Tally) :
    ∃ now, replaceOne (.ok w) row t = .ok (now, t.settle new [row]) ∧
      now.equals (new row) = true := by
  have hback : (new row).equals w = true := Value.equals_symm hw hnew hequal
  rw [replaceOne_of_sameKey (hkey.of_equals hback)]
  by_cases hsame : row.equals w = true
  · have hold : row.equals (new row) = true := Value.equals_trans hsame hequal
    rw [if_pos hsame]
    exact ⟨row, by simp [Tally.settle, hold], hold⟩
  · have hold : row.equals (new row) = false := by
      by_contra hold
      exact hsame (Value.equals_trans (by simpa using hold) hback)
    rw [if_neg hsame]
    exact ⟨w, by simp [Tally.settle, hold], hequal⟩

/-- A row that is not in error and gets the known value: the value that it was given is that one. -/
theorem equals_of_replaceOne (hrow : row.Distinct) (hx : ∀ w, x = .ok w → w.Distinct)
    (h : replaceOne x row t = .ok (now, t')) (herrors : t'.errors ≤ t.errors)
    (hnow : now.equals v = true) : ∃ w, x = .ok w ∧ w.equals v = true := by
  obtain ⟨w, rfl, ⟨-, rfl⟩ | hkey⟩ := replaceOne_cases h
  · exact absurd herrors (Nat.not_succ_le_self t.errors)
  · refine ⟨w, rfl, ?_⟩
    rw [replaceOne_of_sameKey hkey] at h
    split at h
    · next hsame =>
      cases h
      exact Value.equals_trans (Value.equals_symm hrow (hx w rfl) hsame) hnow
    · cases h
      exact hnow

theorem replaceOne_distinct (hrow : row.Distinct) (hx : ∀ w, x = .ok w → w.Distinct)
    (h : replaceOne x row t = .ok (now, t')) : now.Distinct := by
  obtain ⟨new, rfl, ⟨rfl, -⟩ | hkey⟩ := replaceOne_cases h
  · exact hrow
  · rw [replaceOne_of_sameKey hkey] at h
    split at h
    · cases h
      exact hrow
    · cases h
      exact hx now rfl

theorem sameKey_of_replaceOne (hrow : SameKey row row) (h : replaceOne x row t = .ok (now, t')) :
    SameKey row now := by
  obtain ⟨w, rfl, ⟨rfl, -⟩ | hkey⟩ := replaceOne_cases h
  · exact hrow
  · rw [replaceOne_of_sameKey hkey] at h
    split at h
    · cases h
      exact hrow
    · cases h
      exact hkey

end One

section InTurn

variable {value : List Value → Value → Except Error Value} {new : Value → Value}

theorem replaceInTurn_of_error {row : Value} {done rest : List Value} {t : Tally} {e : Error}
    (h : replaceOne (value (done ++ row :: rest) row) row t = .error e) :
    replaceInTurn value done (row :: rest) t = (.error e, done ++ row :: rest) := by
  rw [replaceInTurn, h]

theorem replaceInTurn_of_ok {row now : Value} {done rest : List Value} {t t' : Tally}
    (h : replaceOne (value (done ++ row :: rest) row) row t = .ok (now, t')) :
    replaceInTurn value done (row :: rest) t = replaceInTurn value (done ++ [now]) rest t' := by
  rw [replaceInTurn, h]

/-- The rows that are done stay what they are. -/
theorem exists_replaceInTurn_eq (value : List Value → Value → Except Error Value)
    (rest : List Value) : ∀ (done : List Value) (t : Tally),
    ∃ later, (replaceInTurn value done rest t).2 = done ++ later ∧
      later.length = rest.length := by
  induction rest with
  | nil => exact fun done t => ⟨[], by simp [replaceInTurn], rfl⟩
  | cons row rest ih =>
    intro done t
    cases hone : replaceOne (value (done ++ row :: rest) row) row t with
    | error e => exact ⟨row :: rest, by rw [replaceInTurn_of_error hone], rfl⟩
    | ok settled =>
      obtain ⟨later, hlater, hlength⟩ := ih (done ++ [settled.1]) settled.2
      refine ⟨settled.1 :: later, ?_, by rw [List.length_cons, hlength, List.length_cons]⟩
      rw [replaceInTurn_of_ok hone, hlater, List.append_assoc, List.singleton_append]

theorem replaceInTurn_errors_le {rest : List Value} : ∀ {done : List Value} {t last : Tally},
    (replaceInTurn value done rest t).1 = .ok last → t.errors ≤ last.errors := by
  induction rest with
  | nil =>
    intro done t last h
    cases h
    exact le_rfl
  | cons row rest ih =>
    intro done t last h
    cases hone : replaceOne (value (done ++ row :: rest) row) row t with
    | error e =>
      rw [replaceInTurn_of_error hone] at h
      cases h
    | ok settled =>
      rw [replaceInTurn_of_ok hone] at h
      exact (replaceOne_errors_le hone).trans (ih h)

structure Settled (new : Value → Value) (rows now : List Value) (t : Tally)
    (outcome : Except Error Tally) : Prop where
  outcome_eq : outcome = .ok (t.settle new rows)
  rows : List.Forall₂ (fun row after => after.equals (new row) = true) rows now

theorem settled_cons {row now : Value} {rest later : List Value} {t : Tally}
    {outcome : Except Error Tally} : Settled new (row :: rest) (now :: later) t outcome ↔
      now.equals (new row) = true ∧ Settled new rest later (t.settle new [row]) outcome := by
  constructor
  · rintro ⟨houtcome, hrows⟩
    obtain ⟨hfirst, hrest⟩ := List.forall₂_cons.mp hrows
    exact ⟨hfirst, houtcome.trans (by rw [Tally.settle_cons]), hrest⟩
  · rintro ⟨hfirst, houtcome, hrest⟩
    exact ⟨houtcome.trans (by rw [← Tally.settle_cons]), .cons hfirst hrest⟩

/-- Each row has the value that is known for it at the time when it is its turn: the rows done and
those before it are written by then. -/
def Foreseen (value : List Value → Value → Except Error Value) (new : Value → Value)
    (done rest later : List Value) : Prop :=
  ∀ before row after, rest = before ++ row :: after →
    ∃ w, value (done ++ later.take before.length ++ row :: after) row = .ok w ∧
      w.equals (new row) = true

theorem foreseen_cons {row now : Value} {done rest later : List Value} :
    Foreseen value new done (row :: rest) (now :: later) ↔
      (∃ w, value (done ++ row :: rest) row = .ok w ∧ w.equals (new row) = true) ∧
        Foreseen value new (done ++ [now]) rest later := by
  constructor
  · intro h
    refine ⟨by simpa using h [] row rest rfl, fun before r after hsplit => ?_⟩
    simpa using h (row :: before) r after (by rw [hsplit, List.cons_append])
  · rintro ⟨hfirst, hrest⟩ before r after hsplit
    cases before with
    | nil =>
      cases hsplit
      simpa using hfirst
    | cons b before =>
      cases hsplit
      simpa using hrest before r after rfl

/-- Replacement in turn leaves what is known for the rows exactly if each value, taken from the
table in which the rows before it are written, is the known one. The induction is on the rows to
come. -/
theorem replaceInTurn_iff {rest : List Value} (hrows : ∀ row ∈ rest, row.Distinct)
    (hnew : ∀ row ∈ rest, (new row).Distinct ∧ SameKey row (new row))
    (hvalue : ∀ rows row w, (∀ r ∈ rows, r.Distinct) → row ∈ rows → value rows row = .ok w →
      w.Distinct) : ∀ {done later : List Value} {t : Tally}, (∀ row ∈ done, row.Distinct) →
    (replaceInTurn value done rest t).2 = done ++ later →
    (Settled new rest later t (replaceInTurn value done rest t).1 ↔
      Foreseen value new done rest later) := by
  induction rest with
  | nil =>
    intro done later t hdone hlater
    obtain rfl : later = [] := by simpa [replaceInTurn] using hlater.symm
    exact ⟨fun _ before row after h => by simp at h, fun _ => ⟨rfl, .nil⟩⟩
  | cons row rest ih =>
    intro done later t hdone hlater
    obtain ⟨hrow, hrest⟩ := List.forall_mem_cons.mp hrows
    obtain ⟨⟨hdistinct, hkey⟩, hnewRest⟩ := List.forall_mem_cons.mp hnew
    have htable : ∀ r ∈ done ++ row :: rest, r.Distinct :=
      List.forall_mem_append.mpr ⟨hdone, hrows⟩
    have hfirst (w : Value) (hw : value (done ++ row :: rest) row = .ok w) : w.Distinct :=
      hvalue _ row w htable (by simp) hw
    -- the known value at the turn of the row settles it
    have hsettles (w : Value) (hw : value (done ++ row :: rest) row = .ok w)
        (hequal : w.equals (new row) = true) :
        ∃ now, replaceOne (value (done ++ row :: rest) row) row t = .ok (now, t.settle new [row]) ∧
          now.equals (new row) = true := by
      rw [hw]
      exact replaceOne_of_equals hdistinct (hfirst w hw) hkey hequal t
    cases hone : replaceOne (value (done ++ row :: rest) row) row t with
    | error e =>
      rw [replaceInTurn_of_error hone]
      constructor
      · rintro ⟨houtcome, -⟩
        cases houtcome
      · intro h
        obtain ⟨w, hw, hequal⟩ := h [] row rest rfl
        rw [List.length_nil, List.take_zero, List.append_nil] at hw
        obtain ⟨now, hnow, -⟩ := hsettles w hw hequal
        cases hone.symm.trans hnow
    | ok settled =>
      obtain ⟨now, t'⟩ := settled
      rw [replaceInTurn_of_ok hone] at hlater ⊢
      obtain ⟨tail, htail, -⟩ := exists_replaceInTurn_eq value rest (done ++ [now]) t'
      obtain rfl : later = now :: tail := by
        rw [htail, List.append_assoc, List.singleton_append] at hlater
        exact (List.append_cancel_left hlater).symm
      have hdone' : ∀ r ∈ done ++ [now], r.Distinct := by
        refine List.forall_mem_append.mpr ⟨hdone, List.forall_mem_singleton.mpr ?_⟩
        exact replaceOne_distinct hrow hfirst hone
      rw [settled_cons, foreseen_cons, ← ih hrest hnewRest hdone' htail]
      -- either side puts the row in order, and then the tally is the settled one
      constructor
      · rintro ⟨hnow, hsettled⟩
        have herrors := replaceInTurn_errors_le hsettled.outcome_eq
        obtain ⟨w, hw, hequal⟩ := equals_of_replaceOne hrow hfirst hone herrors hnow
        obtain ⟨_, hnow', -⟩ := hsettles w hw hequal
        cases hone.symm.trans hnow'
        exact ⟨⟨w, hw, hequal⟩, hsettled⟩
      · rintro ⟨⟨w, hw, hequal⟩, hsettled⟩
        obtain ⟨_, hnow', hequal'⟩ := hsettles w hw hequal
        cases hone.symm.trans hnow'
        exact ⟨hequal', hsettled⟩

end InTurn

section Run

variable {admits : Value → Prop} {value : Argument} {f : List Value → Value → Except Error Value}
  {c mid : Context} {t : String} {live done rest : List Value} {row now : Value}
  {tally tally' : Tally} {e : Error}

structure Rewrites (c : Context) (t : String) (rows : List Value) (next : Context) : Prop
    extends Rewritten c t rows next where
  source_eq : next.state.source = c.state.source
  drawn_eq : next.state.drawn = c.state.drawn

theorem Rewrites.refl {rows : List Value} (htable : c.binding.table = some t)
    (hrows : c.state.store.rows? t = some rows) : Rewrites c t rows c :=
  ⟨.refl htable hrows, rfl, rfl⟩

theorem Rewrites.exists_setRows {rows : List Value} (h : Rewrites c t rows mid)
    (new : List Value) :
    ∃ next, (setRows new).runFrom mid = (.ok (), next) ∧ Rewrites c t new next := by
  obtain ⟨next, hset, hnext⟩ := h.toRewritten.setRows new
  have hrun := runFrom_setRows new mid
  rw [h.table_eq, hset] at hrun
  cases hrun
  exact ⟨_, hset, hnext, h.source_eq, h.drawn_eq⟩

def Tells (value : Argument) (s : State) (t : String)
    (f : List Value → Value → Except Error Value) : Prop :=
  ∀ (rows : List Value) (row : Value) (s' : State), s'.source = s.source → s'.drawn = s.drawn →
    (∀ name, s'.store.rows? name = if name = t then some rows else s.store.rows? name) →
    (value.evalRow row).runFrom s' = (f rows row, s')

theorem Tells.runFrom_evalRow {rows : List Value} (hvalue : Tells value c.state t f)
    (h : Rewrites c t rows mid) (row : Value) :
    (evalRow row value).runFrom mid = (f rows row, mid) := by
  rw [evalRow, runFrom_ofEval, hvalue rows row mid.state h.source_eq h.drawn_eq h.rows?_eq]

/-- A row whose value fails, or is no row, ends the replacement before it writes. -/
theorem runFrom_replaceRow_error {rows : List Value} (hvalue : Tells value c.state t f)
    (h : Rewrites c t rows mid) (hone : replaceOne (f rows row) row tally = .error e) :
    (replaceRow value tally row).runFrom mid = (.error e, mid) := by
  rw [replaceRow, runFrom_bind, hvalue.runFrom_evalRow h]
  cases hw : f rows row with
  | error e' =>
    rw [hw] at hone
    cases hone
    rfl
  | ok w =>
    dsimp only
    rw [runFrom_bind, runFrom_ofExcept]
    simp only [hw, replaceOne, bind, Except.bind] at hone
    cases hkey : replacementKey w with
    | error e' =>
      rw [hkey] at hone
      cases hone
      rfl
    | ok key =>
      rw [hkey] at hone
      dsimp only at hone
      split at hone
      · cases hone
      · split at hone <;> cases hone

/-- A row that does not fail is found where it was, as those before it kept their keys. -/
theorem runFrom_replaceRow_ok (hvalue : Tells value c.state t f)
    (h : Rewrites c t (done ++ row :: rest) mid) (hlive : KeyedBy admits live)
    (hkeys : SameKeys live (done ++ row :: rest)) (hi : live[done.length]? = some row)
    (hone : replaceOne (f (done ++ row :: rest) row) row tally = .ok (now, tally')) :
    ∃ next, (replaceRow value tally row).runFrom mid = (.ok tally', next) ∧
      Rewrites c t (done ++ now :: rest) next := by
  have hthere : (done ++ row :: rest)[done.length]? = some row := by simp
  have hset (w : Value) : (done ++ row :: rest).set done.length w = done ++ w :: rest := by simp
  rw [replaceRow, runFrom_bind, hvalue.runFrom_evalRow h]
  cases hw : f (done ++ row :: rest) row with
  | error e =>
    rw [hw] at hone
    cases hone
  | ok w =>
    dsimp only
    rw [runFrom_bind, runFrom_ofExcept]
    simp only [hw, replaceOne, bind, Except.bind] at hone
    cases hkey : replacementKey w with
    | error e =>
      rw [hkey] at hone
      cases hone
    | ok key =>
      rw [hkey] at hone
      dsimp only at hone ⊢
      -- a row with another key, and one that would not change, is only counted
      split at hone
      · next hother =>
        cases hone
        rw [if_pos hother]
        exact ⟨mid, rfl, h⟩
      · next hother =>
        rw [if_neg hother]
        split at hone
        · next hsame =>
          cases hone
          rw [if_pos hsame]
          exact ⟨mid, rfl, h⟩
        · next hsame =>
          cases hone
          obtain ⟨next, hput, hnext⟩ := h.exists_setRows (done ++ now :: rest)
          refine ⟨next, ?_, hnext⟩
          rw [if_neg hsame, runFrom_bind, runFrom_ask, h.locate_eq hlive hkeys hi hthere]
          dsimp only
          rw [runFrom_bind, runFrom_ask, h.rows_eq]
          dsimp only
          rw [hset, runFrom_bind, hput]
          rfl

/-- The loop over the rows to come. Those before it were met and have kept their keys, the others
are still as they were. -/
theorem runFrom_foldlM_replaceRow (hvalue : Tells value c.state t f) (hlive : KeyedBy admits live)
    (before done rest : List Value) (tally : Tally) (hsplit : live = before ++ rest)
    (hlength : before.length = done.length) (hkeys : SameKeys live (done ++ rest))
    (h : Rewrites c t (done ++ rest) mid) :
    ∃ next, (rest.foldlM (replaceRow value) tally).runFrom mid =
        ((replaceInTurn f done rest tally).1, next) ∧
      Rewrites c t (replaceInTurn f done rest tally).2 next := by
  induction rest generalizing before done tally mid with
  | nil =>
    rw [List.append_nil] at h
    exact ⟨mid, rfl, h⟩
  | cons row rest ih =>
    have hi : live[done.length]? = some row := by rw [hsplit, ← hlength]; simp
    rw [List.foldlM_cons, runFrom_bind]
    cases hone : replaceOne (f (done ++ row :: rest) row) row tally with
    | error e =>
      rw [replaceInTurn_of_error hone, runFrom_replaceRow_error hvalue h hone]
      exact ⟨mid, rfl, h⟩
    | ok settled =>
      obtain ⟨now, tally'⟩ := settled
      obtain ⟨next, hrow, hnext⟩ := runFrom_replaceRow_ok hvalue h hlive hkeys hi hone
      have hrowKey : SameKey row row := (SameKeys.refl hlive).same _ row row hi hi
      have hkeys' := hkeys.set hi (sameKey_of_replaceOne hrowKey hone)
      -- one more row is done, and those to come are at their old positions
      have hset : (done ++ row :: rest).set done.length now = done ++ [now] ++ rest := by simp
      have happend : done ++ now :: rest = done ++ [now] ++ rest := by simp
      rw [hset] at hkeys'
      rw [happend] at hnext
      rw [replaceInTurn_of_ok hone, hrow]
      exact ih (before ++ [row]) (done ++ [now]) tally' (by simp [hsplit]) (by simp [hlength])
        hkeys' hnext

/-- A replacement of all rows of a table by a value that is not `null`. -/
theorem runFrom_replace_rows (hvalue : Tells value c.state t f) (hlive : KeyedBy admits live)
    (h : Rewrites c t live c) (htype : c.type.isSelection = true) (hnull : value.isNull = false)
    (options : Argument) :
    ∃ next, (replace (.array live) value options).runFrom c =
        ((replaceInTurn f [] live ⟨0, 0, 0⟩).1.map fun tally => tally.report.toValue, next) ∧
      Rewrites c t (replaceInTurn f [] live ⟨0, 0, 0⟩).2 next := by
  have hexpect : c.expectSelection = .ok () := if_pos htype
  obtain ⟨next, hloop, hnext⟩ := runFrom_foldlM_replaceRow hvalue hlive [] [] live ⟨0, 0, 0⟩ rfl rfl
    (.refl hlive) h
  refine ⟨next, ?_, hnext⟩
  rw [replace, runFrom_bind, runFrom_ask, hexpect]
  dsimp only
  rw [hnull, if_neg Bool.false_ne_true, replaceRows, runFrom_bind, runFrom_bind, hloop]
  cases (replaceInTurn f [] live ⟨0, 0, 0⟩).1 <;> rfl

end Run

end Mutation

end TableQuery
