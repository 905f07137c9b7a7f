import Mathlib
import TableQuery.Proofs.Action.Atomicity
import TableQuery.Proofs.PrimaryKey.Lookup
import TableQuery.Proofs.Selection.Update

namespace TableQuery

def KeysApart (keys : List Value) : Prop :=
  keys.Pairwise fun x y => x.strictEquals y = false

instance (keys : List Value) : Decidable (KeysApart keys) :=
  inferInstanceAs (Decidable (keys.Pairwise fun x y => x.strictEquals y = false))

/-- Equality sorts keys into classes, and different keys are those with at most one in each. -/
theorem keysApart_iff {keys : List Value} (h : ∀ key ∈ keys, key.Distinct) : KeysApart keys ↔
    ∀ key : Value, key.Distinct → keys.countP (fun k => k.equals key) ≤ 1 := by
  induction keys with
  | nil => simp [KeysApart]
  | cons first rest ih =>
    simp only [List.forall_mem_cons] at h
    have hrest := ih h.2
    unfold KeysApart at hrest ⊢
    rw [List.pairwise_cons, hrest]
    constructor
    · rintro ⟨hfirst, hcount⟩ key hkey
      rw [List.countP_cons]
      by_cases hequal : first.equals key = true
      -- a key of the rest in the class of the first one would be equal to it
      · have hnone : rest.countP (fun k => k.equals key) = 0 := by
          apply List.countP_eq_zero.mpr
          intro other hother hsame
          have hback := Value.equals_symm (h.2 other hother) hkey hsame
          have hdiffer := hfirst other hother
          rw [Value.strictEquals_eq_equals, Value.equals_trans hequal hback] at hdiffer
          cases hdiffer
        rw [hnone, if_pos hequal]
      · rw [if_neg hequal]
        exact hcount key hkey
    · intro hcount
      constructor
      · intro other hother
        by_contra hsame
        have hequal : first.equals other = true := by
          simpa [Value.strictEquals_eq_equals] using hsame
        have hone : 1 ≤ rest.countP (fun k => k.equals other) :=
          List.one_le_countP_iff.mpr ⟨other, hother, Value.equals_refl (h.2 other hother)⟩
        have hboth := hcount other (h.2 other hother)
        rw [List.countP_cons, if_pos hequal] at hboth
        omega
      · intro key hkey
        have hboth := hcount key hkey
        rw [List.countP_cons] at hboth
        omega

theorem countP_keysOf (key : Value) (rows : List Value) :
    (keysOf rows).countP (fun k => k.equals key) = rows.countP (Value.hasId key) := by
  rw [keysOf, List.countP_filterMap]
  apply List.countP_congr
  intro row _
  unfold Value.hasId
  cases row.id? <;> simp [Value.strictEquals_eq_equals]

/-- What a write at one position does to a count. -/
theorem countP_set_add {α : Type} (p : α → Bool) {xs : List α} {i : Nat} {old : α} (new : α)
    (hi : xs[i]? = some old) : (xs.set i new).countP p + (if p old then 1 else 0) =
      xs.countP p + (if p new then 1 else 0) := by
  obtain ⟨hlt, rfl⟩ := List.getElem?_eq_some_iff.mp hi
  have hle := List.boole_getElem_le_countP hlt (p := p)
  rw [List.countP_set hlt]
  omega

/-- An argument without effects on the tables leaves them as they are, whatever it gives. -/
theorem Rewritten.of_framed {c mid : Context} {t : String} {live : List Value}
    (hlive : c.state.store.rows? t = some live)
    (h : Framed (HasTables c.state.store) c.type (some t) mid) : Rewritten c t live mid := by
  refine ⟨h.type_eq, h.table_eq, fun name => ?_⟩
  have hstore : mid.state.store = c.state.store := h.state
  rw [hstore]
  split
  · next heq => rw [heq, hlive]
  · rfl

namespace Mutation

open Act

def givenKey (row : Value) (patch : Fields) : Option Value :=
  if row.id?.isNone then Fields.get? primaryKey patch else none

def givenKeys (rows : List Value) (patches : List Fields) : List Value :=
  (rows.zip patches).filterMap fun pair => givenKey pair.1 pair.2

theorem givenKeys_cons (row : Value) (rows : List Value) (patch : Fields) (patches : List Fields) :
    givenKeys (row :: rows) (patch :: patches) =
      (givenKey row patch).toList ++ givenKeys rows patches := by
  unfold givenKeys
  rw [List.zip_cons_cons, List.filterMap_cons]
  cases givenKey row patch <;> rfl

def keysGiven (arg : Argument) (rows : List Value) (c : Context) : List Value :=
  match (rows.mapM fun row => do ofExcept (asPatch (← evalRow row arg)) : Act (List Fields)).runFrom
      c with
  | (.ok patches, _) => givenKeys rows patches
  -- nothing is written before all patches are built
  | _ => []

/-- Rows that have a key already are given none. -/
theorem keysGiven_eq_nil {rows : List Value} (h : ∀ row ∈ rows, row.id?.isSome = true)
    (arg : Argument) (c : Context) : keysGiven arg rows c = [] := by
  unfold keysGiven
  split
  · apply List.filterMap_eq_nil_iff.mpr
    rintro ⟨row, patch⟩ hpair
    have hsome := h row (List.of_mem_zip hpair).1
    rw [givenKey, if_neg (by simpa [Option.isSome_iff_ne_none] using hsome)]
  · rfl

def Stored (row : Value) : Prop := row.isObject = true ∧ row.Distinct

section Patched

variable {row stored : Value} {patch : Fields}

theorem stored_patched (hstored : Stored stored) (hpatch : (Value.object patch).Distinct) :
    Stored (patched patch stored) := by
  obtain ⟨hobject, hdistinct⟩ := hstored
  unfold patched
  split
  · exact ⟨hobject, hdistinct⟩
  · refine ⟨?_, Value.hereditary_distinct.merge hdistinct hpatch⟩
    cases stored <;> try cases hobject
    rw [Value.merge, Fields.mergeValue]
    rfl

/-- A row with a key keeps it when it is patched. -/
theorem hasId_patched (hstored : Stored stored) (hpatch : (Value.object patch).Distinct)
    {old : Value} (hold : stored.id? = some old) (key : Value) :
    key.hasId (patched patch stored) = key.hasId stored := by
  have hrow : IsRow (fun _ => True) stored := ⟨hstored.2, old, hold, trivial⟩
  obtain ⟨x, y, hx, hy, hequal⟩ := sameKey_patched admission_true hrow hpatch
  have hnew := Value.hereditary_distinct.field? (stored_patched hstored hpatch).2 hy
  have hxd := Value.hereditary_distinct.field? hstored.2 hx
  rw [Value.hasId, Value.hasId, hx, hy, Option.any_some, Option.any_some,
    Value.strictEquals_eq_equals, Value.strictEquals_eq_equals]
  apply Bool.eq_iff_iff.mpr
  constructor
  · exact Value.equals_trans hequal
  · exact Value.equals_trans (Value.equals_symm hxd hnew hequal)

/-- A row without a key takes that of the patch, if it has one. -/
theorem id?_patched (hstored : Stored stored) (hpatch : (Value.object patch).Distinct)
    (hnone : stored.id? = none) : (patched patch stored).id? = Fields.get? primaryKey patch := by
  obtain ⟨hobject, -⟩ := hstored
  cases stored <;> try cases hobject
  next fields =>
  have hnames := (Value.distinctKeys_object.mp hpatch).1
  have hget : Fields.get? primaryKey fields = none := hnone
  have hfits : ¬ conflicts patch (.object fields) = true := by
    unfold conflicts
    rw [hnone]
    exact Bool.false_ne_true
  rw [patched, if_neg hfits, Value.merge, Fields.mergeValue]
  have hmerge := Fields.get?_merge primaryKey fields hnames
  rw [hget] at hmerge
  refine Eq.trans hmerge ?_
  cases hp : Fields.get? primaryKey patch with
  | none => rfl
  | some key => cases key <;> simp [Fields.mergeValue]

end Patched

/-- How far an update has come. `live` are the rows that the table had, `given` the keys given so
far, `rest` the rows to come and `now` the rows that the table has. Whatever rows without a key are
to come, the table has enough of them left. -/
structure Giving (live given rest now : List Value) : Prop where
  stored : ∀ row ∈ now, Stored row
  distinct : ∀ key ∈ given, key.Distinct
  keys : ∀ key : Value, key.Distinct → now.countP (Value.hasId key) =
    live.countP (Value.hasId key) + given.countP fun k => k.equals key
  keyless : ∀ row : Value, row.Distinct → row.id? = none →
    (rest.countP fun r => r.equals row) ≤ now.countP fun r => r.equals row

namespace Giving

variable {live given rest now : List Value} {row stored : Value} {patch : Fields} {i : Nat}

theorem start (hlive : ∀ row ∈ live, Stored row) (hrest : rest.Subperm live) :
    Giving live [] rest live where
  stored := hlive
  distinct := by simp
  keys key _ := by rw [List.countP_nil, Nat.add_zero]
  keyless row _ _ := hrest.countP_le _

/-- A row that is passed over. -/
theorem drop (h : Giving live given (row :: rest) now) : Giving live given rest now := by
  refine { h with keyless := fun other hother hnone => ?_ }
  have hall := h.keyless other hother hnone
  rw [List.countP_cons] at hall
  omega

/-- A row without a key is always found, since the table has one equal to it left. -/
theorem position_ne_none (h : Giving live given (row :: rest) now) (hrow : row.Distinct)
    (hnone : row.id? = none) (hint : Option Nat) : Context.position hint row now ≠ none := by
  have hall := h.keyless row hrow hnone
  rw [List.countP_cons, if_pos (Value.equals_refl hrow)] at hall
  obtain ⟨stored, hstored, hequal⟩ :=
    List.one_le_countP_iff.mp (Nat.le_trans (Nat.le_add_left _ _) hall)
  apply position_ne_none_of_mem hstored
  rwa [Value.sameRow_of_id_eq_none (.inr hnone)]

/-- A row with a key that is patched gives none. -/
theorem patch_keyed (h : Giving live given (row :: rest) now) (hi : now[i]? = some stored)
    (hpatch : (Value.object patch).Distinct) {old : Value} (hold : stored.id? = some old) :
    Giving live given rest (now.set i (patched patch stored)) := by
  have hthis := h.stored stored (List.mem_of_getElem? hi)
  refine ⟨?_, h.distinct, ?_, ?_⟩
  · intro r hr
    rcases List.mem_or_eq_of_mem_set hr with hmem | rfl
    · exact h.stored r hmem
    · exact stored_patched hthis hpatch
  · intro key hkey
    have hset := countP_set_add (Value.hasId key) (patched patch stored) hi
    rw [hasId_patched hthis hpatch hold] at hset
    rw [← h.keys key hkey]
    omega
  · intro other hother hnone
    have hset := countP_set_add (fun r => r.equals other) (patched patch stored) hi
    -- the row that was written over was no row without a key
    have hdiffer : ¬ stored.equals other = true := by
      intro hequal
      obtain ⟨_, hid, -⟩ := Value.exists_id_of_equals hequal hold
      cases hnone.symm.trans hid
    have hall := h.keyless other hother hnone
    rw [List.countP_cons] at hall
    rw [if_neg hdiffer] at hset
    omega

/-- A row without a key that is patched takes the key of its patch. -/
theorem patch_keyless (h : Giving live given (row :: rest) now) (hi : now[i]? = some stored)
    (hpatch : (Value.object patch).Distinct) (hrow : row.Distinct)
    (hequal : stored.equals row = true) (hnone : stored.id? = none) :
    Giving live (given ++ (Fields.get? primaryKey patch).toList) rest
      (now.set i (patched patch stored)) := by
  have hthis := h.stored stored (List.mem_of_getElem? hi)
  have hid := id?_patched hthis hpatch hnone
  refine ⟨?_, ?_, ?_, ?_⟩
  · intro r hr
    rcases List.mem_or_eq_of_mem_set hr with hmem | rfl
    · exact h.stored r hmem
    · exact stored_patched hthis hpatch
  · intro key hkey
    rcases List.mem_append.mp hkey with hold | hnew
    · exact h.distinct key hold
    · exact Value.hereditary_distinct.get? hpatch (Option.mem_toList.mp hnew)
  · intro key hkey
    have hset := countP_set_add (Value.hasId key) (patched patch stored) hi
    have hlast : ((Fields.get? primaryKey patch).toList.countP fun k => k.equals key) =
        if key.hasId (patched patch stored) then 1 else 0 := by
      rw [Value.hasId, hid]
      cases Fields.get? primaryKey patch <;>
        simp [List.countP_cons, Value.strictEquals_eq_equals]
    have hfirst : ¬ key.hasId stored = true := by
      rw [Value.hasId, hnone]
      exact Bool.false_ne_true
    rw [if_neg hfirst] at hset
    rw [List.countP_append, hlast, ← Nat.add_assoc, ← h.keys key hkey]
    omega
  · intro other hother hother'
    have hset := countP_set_add (fun r => r.equals other) (patched patch stored) hi
    -- the row and the one that was found are equal to the same rows
    have hsame : stored.equals other = row.equals other := by
      apply Bool.eq_iff_iff.mpr
      constructor
      · exact Value.equals_trans (Value.equals_symm hthis.2 hrow hequal)
      · exact Value.equals_trans hequal
    have hall := h.keyless other hother hother'
    rw [List.countP_cons, ← hsame] at hall
    omega

/-- The next row: it is passed over, or what stands at its position is patched. -/
theorem next (h : Giving live given (row :: rest) now) (hrow : row.Distinct)
    (hpatch : (Value.object patch).Distinct) (hint : Option Nat) :
    (Context.position hint row now = none →
      Giving live (given ++ (givenKey row patch).toList) rest now) ∧
    ∀ i, Context.position hint row now = some i → ∃ stored, now[i]? = some stored ∧
      stored.isObject = true ∧
      Giving live (given ++ (givenKey row patch).toList) rest
        (now.set i (patched patch stored)) := by
  cases hid : row.id? with
  | none =>
    have hgiven : givenKey row patch = Fields.get? primaryKey patch := by
      rw [givenKey, hid]
      rfl
    rw [hgiven]
    refine ⟨fun hposition => absurd hposition (h.position_ne_none hrow hid hint), fun i hi => ?_⟩
    -- a row without a key is found by equality, so what is found has no key either
    obtain ⟨stored, hstored, hsame⟩ := exists_of_position hi
    have hthis := h.stored stored (List.mem_of_getElem? hstored)
    have hequal : stored.equals row = true := by
      unfold Value.sameRow at hsame
      rw [hid] at hsame
      cases hstoredId : stored.id? <;> rw [hstoredId] at hsame <;> exact hsame
    have hnone : stored.id? = none := by
      cases hstoredId : stored.id? with
      | none => rfl
      | some key =>
        obtain ⟨_, hkey, -⟩ := Value.exists_id_of_equals hequal hstoredId
        cases hid.symm.trans hkey
    exact ⟨stored, hstored, hthis.1, h.patch_keyless hstored hpatch hrow hequal hnone⟩
  | some key =>
    -- a row that has a key keeps it
    have hgiven : givenKey row patch = none := by
      rw [givenKey, hid]
      rfl
    rw [hgiven, Option.toList_none, List.append_nil]
    refine ⟨fun _ => h.drop, fun i hi => ?_⟩
    obtain ⟨stored, hstored, hsame⟩ := exists_of_position hi
    have hthis := h.stored stored (List.mem_of_getElem? hstored)
    obtain ⟨old, _, hold, -, -⟩ := SameKey.of_sameRow_id hthis.2 hrow hid hsame
    exact ⟨stored, hstored, hthis.1, h.patch_keyed hstored hpatch hold⟩

/-- In the end the keys are those that were there and those that were given, each as often. -/
theorem keysApart_keysOf (h : Giving live given [] now) (hlive : ∀ row ∈ live, Stored row) :
    KeysApart (keysOf now) ↔ KeysApart (keysOf live ++ given) := by
  have hkeys {rows : List Value} (hrows : ∀ row ∈ rows, Stored row) :
      ∀ key ∈ keysOf rows, key.Distinct := by
    intro key hkey
    obtain ⟨row, hrow, hid⟩ := mem_keysOf.mp hkey
    exact Value.hereditary_distinct.field? (hrows row hrow).2 hid
  have hboth : ∀ key ∈ keysOf live ++ given, key.Distinct := by
    intro key hkey
    rcases List.mem_append.mp hkey with hold | hnew
    · exact hkeys hlive key hold
    · exact h.distinct key hnew
  rw [keysApart_iff (hkeys h.stored), keysApart_iff hboth]
  apply forall₂_congr
  intro key hkey
  rw [List.countP_append, countP_keysOf, countP_keysOf, h.keys key hkey]

end Giving

section Run

variable {arg : Argument} {c mid : Context} {t : String} {live given rest now rows : List Value}
  {row : Value} {tally : Tally}

/-- One more row is patched, if it is found. -/
theorem exists_runFrom_patchRow {patch : Fields} (tally : Tally) (h : Rewritten c t now mid)
    (hgiving : Giving live given (row :: rest) now) (hrow : row.Distinct)
    (hpatch : (Value.object patch).Distinct) : ∃ tally' next now',
      (patchRow tally row patch).runFrom mid = (.ok tally', next) ∧ Rewritten c t now' next ∧
      Giving live (given ++ (givenKey row patch).toList) rest now' := by
  obtain ⟨hskip, hwrite⟩ := hgiving.next hrow hpatch mid.binding.rowIndex
  have hlocate := h.locate_position row
  cases hposition : Context.position mid.binding.rowIndex row now with
  | none =>
    refine ⟨{ tally with unchanged := tally.unchanged + 1 }, mid, now, ?_, h, hskip hposition⟩
    rw [patchRow, runFrom_bind, runFrom_ask, hlocate, hposition]
    rfl
  | some i =>
    obtain ⟨stored, hi, hobject, hnext⟩ := hwrite i hposition
    rw [hposition] at hlocate
    obtain ⟨next, hrun, hrewritten⟩ := runFrom_patchRow patch tally h hlocate hi hobject
    exact ⟨_, next, _, hrun, hrewritten, hnext⟩

/-- The loop over the selected rows, by induction on the rows to come. -/
theorem exists_runFrom_patchRows {patches : List Fields} (tally : Tally)
    (h : Rewritten c t now mid) (hgiving : Giving live given rest now)
    (hrest : ∀ row ∈ rest, row.Distinct)
    (hpatches : ∀ patch ∈ patches, (Value.object patch).Distinct)
    (hlength : patches.length = rest.length) : ∃ tally' next now',
      ((rest.zip patches).foldlM (fun done (row, patch) => patchRow done row patch) tally).runFrom
        mid = (.ok tally', next) ∧ Rewritten c t now' next ∧
      Giving live (given ++ givenKeys rest patches) [] now' := by
  induction rest generalizing patches tally given now mid with
  | nil =>
    have hnone : givenKeys [] patches = [] := by
      rw [givenKeys, List.zip_nil_left, List.filterMap_nil]
    rw [hnone, List.append_nil]
    exact ⟨tally, mid, now, rfl, h, hgiving⟩
  | cons row rest ih =>
    rcases patches with _ | ⟨patch, patches⟩
    · cases hlength
    simp only [List.forall_mem_cons] at hrest hpatches
    obtain ⟨tally', next, now', hrun, hnext, hgives⟩ :=
      exists_runFrom_patchRow tally h hgiving hrest.1 hpatches.1
    obtain ⟨last, final, now'', hloop, hfinal, hdone⟩ :=
      ih tally' hnext hgives hrest.2 hpatches.2 (Nat.succ.inj hlength)
    refine ⟨last, final, now'', ?_, hfinal, ?_⟩
    · rw [List.zip_cons_cons, List.foldlM_cons, runFrom_bind]
      dsimp only
      rw [hrun]
      exact hloop
    · rw [givenKeys_cons, ← List.append_assoc]
      exact hdone

def LeavesKeys {α : Type} (x : Act α) (c : Context) (t : String) (live given : List Value) : Prop :=
  ∃ outcome next now, x.runFrom c = (outcome, next) ∧ Rewritten c t now next ∧
    Giving live given [] now

theorem LeavesKeys.map {α β : Type} {x : Act α} (h : LeavesKeys x c t live given) (f : α → β) :
    LeavesKeys (do return f (← x)) c t live given := by
  obtain ⟨outcome, next, now, hrun, hrest⟩ := h
  refine ⟨outcome.map f, next, now, ?_, hrest⟩
  rw [runFrom_bind, hrun]
  cases outcome <;> rfl

/-- A patch that is no object is refused, whatever the row is. -/
theorem keysGiven_of_isNull (hnull : arg.isNull = true) (rows : List Value) (c : Context) :
    keysGiven arg rows c = [] := by
  unfold keysGiven
  rcases rows with _ | ⟨row, rest⟩
  · rfl
  have hfails : (do ofExcept (asPatch (← evalRow row arg)) : Act Fields).runFrom c =
      (.error (.unaccepted .patch .null), c) := by
    rcases arg with _ | v | run
    · cases hnull
    · cases v <;> cases hnull
      rfl
    · cases hnull
  rw [List.mapM_cons, runFrom_bind, hfails]

/-- Whether or not an update of rows gets to write, it gives the keys that its patches bring. -/
theorem updateRows_leavesKeys (htable : c.binding.table = some t)
    (hrows : c.state.store.rows? t = some live) (htype : c.type.isSelection = true)
    (hlive : ∀ row ∈ live, Stored row) (hsub : rows.Subperm live)
    (harg : arg.Good (HasTables c.state.store) Value.Distinct) :
    LeavesKeys (updateRows rows arg) c t live (keysGiven arg rows c) := by
  have hexpect : c.expectSelection = .ok () := if_pos htype
  have hnone : Giving live [] [] live := .start hlive List.nil_subperm
  have hdistinct : ∀ row ∈ rows, row.Distinct := fun row hrow => (hlive row (hsub.subset hrow)).2
  rw [LeavesKeys, updateRows, runFrom_bind, runFrom_ask, hexpect]
  dsimp only
  by_cases hnull : arg.isNull = true
  · rw [if_pos hnull, keysGiven_of_isNull hnull]
    exact ⟨_, c, live, rfl, .refl htable hrows, hnone⟩
  rw [if_neg hnull, runFrom_bind]
  -- all patches are there before the first row is written
  have hkeeps : Keeps (Framed (HasTables c.state.store) c.type (some t))
      (fun patches => ∀ patch ∈ patches, (Value.object patch).Distinct)
      (rows.mapM fun row => do ofExcept (asPatch (← evalRow row arg)) : Act (List Fields)) := by
    apply Keeps.mapM
    intro row hrow
    refine Keeps.bind (Keeps.evalRow harg (hdistinct row hrow)) fun v hv => ?_
    apply Keeps.ofExcept
    intro patch hpatch
    rwa [asPatch_ok hpatch] at hv
  obtain ⟨hframed, hpatches⟩ := hkeeps c ⟨rfl, htable, rfl⟩
  have hlength := (Keeps.length_mapM
    (fun row => do ofExcept (asPatch (← evalRow row arg)) : Value → Act Fields) rows c trivial).2
  unfold keysGiven
  rcases hrun : (rows.mapM fun row => do ofExcept (asPatch (← evalRow row arg)) :
    Act (List Fields)).runFrom c with ⟨e | patches, mid⟩
  · rw [Act.runFrom] at hrun
    rw [hrun] at hframed
    exact ⟨_, mid, live, rfl, .of_framed hrows hframed, hnone⟩
  · rw [Act.runFrom] at hrun
    rw [hrun] at hframed hpatches hlength
    obtain ⟨tally, next, now, hloop, hnext, hgiving⟩ := exists_runFrom_patchRows ⟨0, 0, 0⟩
      (.of_framed hrows hframed) (.start hlive hsub) hdistinct (hpatches patches rfl)
      (hlength patches rfl)
    refine ⟨.ok tally.report, next, now, ?_, hnext, hgiving⟩
    dsimp only
    rw [runFrom_bind, hloop]
    rfl

/-- The patch of one row is built first, as those of many rows are. -/
theorem keysGiven_singleton {outcome : Except Error Value}
    (heval : (evalRow row arg).runFrom c = (outcome, mid)) : keysGiven arg [row] c =
      ((outcome.bind asPatch).toOption.bind (givenKey row)).toList := by
  unfold keysGiven
  rw [List.mapM_cons, List.mapM_nil, runFrom_bind, runFrom_bind, heval]
  rcases outcome with e | v
  · rfl
  change _ = ((asPatch v).toOption.bind (givenKey row)).toList
  dsimp only
  rw [runFrom_ofExcept]
  rcases asPatch v with e | patch
  · rfl
  have hcons := givenKeys_cons row [] patch []
  have hnil : givenKeys [] [] = [] := rfl
  rw [hnil, List.append_nil] at hcons
  exact hcons

theorem updateRow_leavesKeys (htable : c.binding.table = some t)
    (hrows : c.state.store.rows? t = some live) (htype : c.type = .selection)
    (hlive : ∀ row ∈ live, Stored row) (hmem : row ∈ live)
    (harg : arg.Good (HasTables c.state.store) Value.Distinct) :
    LeavesKeys (updateRow row arg) c t live (keysGiven arg [row] c) := by
  have hnone : Giving live [] [] live := .start hlive List.nil_subperm
  have hone : Giving live [] [row] live := .start hlive (List.singleton_subperm_iff.mpr hmem)
  obtain ⟨hobject, hdistinct⟩ := hlive row hmem
  have hsome : row.isNull = false := by cases row <;> first | rfl | cases hobject
  have hstep (outcome : Except Error Value) (mid : Context)
      (heval : (evalRow row arg).runFrom c = (outcome, mid)) :
      Rewritten c t live mid ∧ ∀ v, outcome = .ok v → v.Distinct := by
    have hkeeps := Keeps.evalRow harg hdistinct c ⟨rfl, htable, rfl⟩
    rw [Act.runFrom] at heval
    rw [heval] at hkeeps
    exact ⟨.of_framed hrows hkeeps.1, hkeeps.2⟩
  rw [LeavesKeys, updateRow_eq_writePatch htype hsome]
  rcases heval : (evalRow row arg).runFrom c with ⟨e | v, mid⟩
  · rw [keysGiven_singleton heval]
    exact ⟨.error e, mid, live, rfl, (hstep _ mid heval).1, hnone⟩
  obtain ⟨hmid, hvalue⟩ := hstep _ mid heval
  have hgiven : keysGiven arg [row] c = ((asPatch v).toOption.bind (givenKey row)).toList :=
    keysGiven_singleton heval
  rw [hgiven]
  dsimp only
  cases hpatch : asPatch v with
  | error e => exact ⟨.error e, mid, live, rfl, hmid, hnone⟩
  | ok patch =>
    obtain rfl := asPatch_ok hpatch
    obtain ⟨hskip, hwrite⟩ := hone.next hdistinct (hvalue _ rfl) mid.binding.rowIndex
    have hlocate := hmid.locate_position row
    -- the patch brings its key whether or not the row is still found
    cases hposition : Context.position mid.binding.rowIndex row live with
    | none =>
      refine ⟨.ok .ofSkipped, mid, live, ?_, hmid, hskip hposition⟩
      rw [hposition] at hlocate
      dsimp only
      rw [writePatch, runFrom_bind, runFrom_ask, hlocate]
      rfl
    | some i =>
      obtain ⟨stored, hi, hstored, hgiving⟩ := hwrite i hposition
      rw [hposition] at hlocate
      obtain ⟨next, hrun, hnext⟩ := runFrom_writePatch patch hmid hlocate hi hstored
      exact ⟨_, next, _, hrun, hnext, hgiving⟩

theorem update_leavesKeys {s : State} {e : Evaluated} (hselects : Selects s e t live)
    (hlive : ∀ row ∈ live, Stored row) (harg : arg.Good (HasTables s.store) Value.Distinct)
    (options : Argument) : LeavesKeys (update e.value arg options) ⟨e.type, e.binding, s⟩ t live
      (keysGiven arg (selectedRows e.value) ⟨e.type, e.binding, s⟩) := by
  let c : Context := ⟨e.type, e.binding, s⟩
  have htable : c.binding.table = some t := hselects.table_eq
  have hrows : c.state.store.rows? t = some live := hselects.rows_eq
  have hargument : arg.Good (HasTables c.state.store) Value.Distinct := harg
  rcases hselects.value_cases with ⟨htype, hvalue⟩ | ⟨htype, rows, hvalue, hsub⟩ |
    ⟨htype, hnull | hmem⟩
  · have hselection : c.type.isSelection = true := congrArg TypeTag.isSelection htype
    rw [hvalue]
    exact (updateRows_leavesKeys htable hrows hselection hlive (.refl live) hargument).map _
  · have hselection : c.type.isSelection = true := congrArg TypeTag.isSelection htype
    rw [hvalue]
    exact (updateRows_leavesKeys htable hrows hselection hlive hsub hargument).map _
  · rw [hnull]
    have hstart : Giving live [] [] live := .start hlive List.nil_subperm
    have hrun : (update .null arg options).runFrom c = (.ok Report.ofSkipped.toValue, c) :=
      runFrom_update_null htype
    exact ⟨_, c, live, hrun, .refl htable hrows, hstart⟩
  · obtain ⟨hobject, -⟩ := hlive _ hmem
    have hone := updateRow_leavesKeys htable hrows htype hlive hmem hargument
    cases hvalue : e.value <;> rw [hvalue] at hobject hone <;> try cases hobject
    exact hone.map _

/-- After an update of a selection, whether it succeeds or fails, the keys of the table are
different exactly if those that it had are, together with those that the patches bring to the
selected rows without one. So they stay different if every selected row has a key. The argument
must not write. -/
theorem update_keysApart_iff {s : State} {e : Evaluated} (hselects : Selects s e t live)
    (hlive : ∀ row ∈ live, Stored row) (harg : arg.Good (HasTables s.store) Value.Distinct)
    (options : Argument) : ∃ outcome next now,
      (update e.value arg options).runFrom ⟨e.type, e.binding, s⟩ = (outcome, next) ∧
      (∀ name, next.state.store.rows? name =
        if name = t then some now else s.store.rows? name) ∧
      (KeysApart (keysOf now) ↔ KeysApart (keysOf live ++
        keysGiven arg (selectedRows e.value) ⟨e.type, e.binding, s⟩)) ∧
      ((∀ row ∈ selectedRows e.value, row.id?.isSome = true) → KeysApart (keysOf live) →
        KeysApart (keysOf now)) := by
  obtain ⟨outcome, next, now, hrun, hnext, hgiving⟩ :=
    update_leavesKeys hselects hlive harg options
  have hiff := hgiving.keysApart_keysOf hlive
  refine ⟨outcome, next, now, hrun, hnext.rows?_eq, hiff, fun hkeyed hapart => ?_⟩
  rw [keysGiven_eq_nil hkeyed, List.append_nil] at hiff
  exact hiff.mpr hapart

end Run

/-- One row of two has a key and refuses the patch; the other one takes its key, which is free. -/
theorem update_keysApart_iff_free :
    let first : Value := .object [("id", .bool true)]
    let second : Value := .object [("v", .string "x")]
    let s : State := ⟨⟨[("t", [first, second])]⟩, ⟨fun _ _ => ""⟩, 0⟩
    let e : Evaluated := .ofTable "t" [first, second]
    let arg : Argument := .datum (.object [("id", .bool false)])
    ∃ outcome next now,
      (update e.value arg .undefined).runFrom ⟨e.type, e.binding, s⟩ = (outcome, next) ∧
      next.state.store.rows? "t" = some now ∧ KeysApart (keysOf now) := by
  intro first second s e arg
  have hselects : Selects s e "t" [first, second] := ⟨rfl, rfl, rfl⟩
  have hlive : ∀ row ∈ [first, second], Stored row := by
    simp only [List.forall_mem_cons]
    exact ⟨⟨rfl, by decide⟩, ⟨rfl, by decide⟩, by simp⟩
  have harg : arg.Good (HasTables s.store) Value.Distinct := (by decide : Value.Distinct _)
  have hgiven : keysGiven arg (selectedRows e.value) ⟨e.type, e.binding, s⟩ = [.bool false] := rfl
  obtain ⟨outcome, next, now, hrun, hrows, hiff, -⟩ :=
    update_keysApart_iff hselects hlive harg .undefined
  rw [hgiven] at hiff
  exact ⟨outcome, next, now, hrun, hrows "t", hiff.mpr (by decide)⟩

/-- The row without a key takes one that is taken. -/
theorem not_keysApart_taken :
    let first : Value := .object [("id", .bool true)]
    let second : Value := .object [("v", .string "x")]
    let s : State := ⟨⟨[("t", [first, second])]⟩, ⟨fun _ _ => ""⟩, 0⟩
    let e : Evaluated := .ofTable "t" [first, second]
    let arg : Argument := .datum (.object [("id", .bool true)])
    let out := (update e.value arg .undefined).runFrom ⟨e.type, e.binding, s⟩
    let now : List Value := [first, .object [("v", .string "x"), ("id", .bool true)]]
    Selects s e "t" [first, second] ∧ KeysApart (keysOf [first, second]) ∧
      out.1 = .ok (Tally.report ⟨1, 1, 0⟩).toValue ∧
      out.2.state.store.rows? "t" = some now ∧ ¬ KeysApart (keysOf now) := by
  intro first second s e arg out now
  exact ⟨⟨rfl, rfl, rfl⟩, by decide, by cbv, by cbv, by decide⟩

end Mutation

end TableQuery
