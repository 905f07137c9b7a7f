import TableQuery.Proofs.Action.Accounting
import TableQuery.Proofs.Selection.Exactness
import TableQuery.Proofs.Selection.Targets
import TableQuery.Proofs.Term.Locality
import TableQuery.Proofs.Value.Restated

/-!
Updates that are run again. A row that has a patch merged in, or has refused it, is a fixed point of
the patch (`patched_again`). So a second run of an update whose patch is still the same changes no
table, refuses the rows that were refused and finds the others unchanged (`Term.update_again`).
-/

namespace TableQuery

open Act

section Rows

variable {admits : Value → Prop} {test : Value → Bool} {patch : Fields} {row : Value}
  {live : List Value}

/-- Rows with equal keys refuse the same patches. -/
theorem conflicts_eq_of_sameKey {a b : Value} (ha : a.Distinct) (hb : b.Distinct)
    (h : SameKey a b) (patch : Fields) : conflicts patch a = conflicts patch b := by
  obtain ⟨x, y, hx, hy, hequal⟩ := h
  have hback := Value.equals_symm (Value.hereditary_distinct.field? ha hx)
    (Value.hereditary_distinct.field? hb hy) hequal
  unfold conflicts
  rw [hx, hy]
  cases Fields.get? primaryKey patch with
  | none => rfl
  | some new =>
    dsimp only
    apply congrArg not
    apply Bool.eq_iff_iff.mpr
    constructor
    · exact Value.equals_trans hback
    · exact Value.equals_trans hequal

/-- A patched row is a row. -/
theorem isRow_patched (hadmits : Admission admits) (hrow : IsRow admits row)
    (hpatch : (Value.object patch).Distinct) : IsRow admits (patched patch row) := by
  obtain ⟨x, y, hx, hy, hequal⟩ := sameKey_patched hadmits hrow hpatch
  obtain ⟨id, hid, hadmitted⟩ := hrow.keyed
  obtain rfl := Option.some.inj (hid.symm.trans hx)
  refine ⟨?_, y, hy, hadmits.equal hequal hadmitted⟩
  unfold patched
  split
  · exact hrow.distinct
  · exact Value.hereditary_distinct.mergeValue (by simpa using hrow.distinct) hpatch

/-- A row that has a patch merged in, or has refused it, is left as it is by the patch. -/
theorem patched_again (hadmits : Admission admits) (hrow : IsRow admits row)
    (hpatch : (Value.object patch).Distinct) :
    patched patch (patched patch row) = patched patch row := by
  by_cases hconflict : conflicts patch row = true
  · have hsame : patched patch row = row := if_pos hconflict
    rw [hsame, hsame]
  · have hmerged : patched patch row = row.merge (.object patch) := if_neg hconflict
    have hkey := conflicts_eq_of_sameKey hrow.distinct (isRow_patched hadmits hrow hpatch).distinct
      (sameKey_patched hadmits hrow hpatch) patch
    have hfits : ¬ conflicts patch (patched patch row) = true := by rwa [← hkey]
    rw [patched, if_neg hfits, hmerged]
    exact Value.mergeValue_again (by simpa using hrow.distinct) hpatch

/-- A row that the patch leaves as it is refuses the patch or has it already. -/
theorem conflicts_or_restated (hrow : row.Distinct) (hpatch : (Value.object patch).Distinct)
    (hfixed : patched patch row = row) : conflicts patch row = true ∨
      Value.Restated (· = ·) (some row) (.object patch) := by
  by_cases hconflict : conflicts patch row = true
  · exact .inl hconflict
  · rw [patched, if_neg hconflict] at hfixed
    exact .inr ((Value.compares_eq.merge_iff hrow hpatch).mp hfixed.symm)

def patchIf (test : Value → Bool) (patch : Fields) (row : Value) : Value :=
  if test row then patched patch row else row

/-- Rows that are chosen by a test are those that pass it. -/
theorem map_patchWhere_filter (test : Value → Bool) (patch : Fields) (hlive : KeyedBy admits live) :
    live.map (patchWhere (live.filter test) fun _ => patch) = live.map (patchIf test patch) := by
  apply List.map_congr_left
  intro row hrow
  have hchosen : hasKeyOf (keysOf (live.filter test)) row = test row := by
    apply Bool.eq_iff_iff.mpr
    rw [mem_selected_iff hlive List.filter_sublist.subperm hrow, List.mem_filter]
    exact and_iff_right hrow
  rw [patchWhere, hchosen, patchIf]

theorem isRow_patchIf (hadmits : Admission admits) (hrow : IsRow admits row)
    (hpatch : (Value.object patch).Distinct) (test : Value → Bool) :
    IsRow admits (patchIf test patch row) := by
  unfold patchIf
  split
  · exact isRow_patched hadmits hrow hpatch
  · exact hrow

theorem sameKey_patchIf (hadmits : Admission admits) (hrow : IsRow admits row)
    (hpatch : (Value.object patch).Distinct) (test : Value → Bool) :
    SameKey row (patchIf test patch row) := by
  unfold patchIf
  split
  · exact sameKey_patched hadmits hrow hpatch
  · exact .of_sameRow hrow hrow hrow.sameRow_self

/-- Rows that keep their keys stay rows with different keys. -/
theorem KeyedBy.map (hlive : KeyedBy admits live) {f : Value → Value}
    (hf : ∀ row ∈ live, IsRow admits (f row) ∧ SameKey row (f row)) :
    KeyedBy admits (live.map f) := by
  refine ⟨fun row hrow => ?_, ?_⟩
  · obtain ⟨old, hold, rfl⟩ := List.mem_map.mp hrow
    exact (hf old hold).1
  · rw [List.pairwise_map]
    apply hlive.apart.imp_of_mem
    intro a b ha hb hapart
    by_contra hsame
    have hrowA := hlive.isRow a ha
    have hrowB := hlive.isRow b hb
    obtain ⟨hnewA, hkeyA⟩ := hf a ha
    obtain ⟨hnewB, hkeyB⟩ := hf b hb
    have hback := hrowB.sameRow_symm hnewB hkeyB.sameRow
    have hmid := hnewA.sameRow_trans hnewB hrowB (by simpa using hsame) hback
    rw [hrowA.sameRow_trans hnewA hrowB hkeyA.sameRow hmid] at hapart
    cases hapart

section Again

variable (hadmits : Admission admits) (hlive : KeyedBy admits live)
  (hpatch : (Value.object patch).Distinct)

include hadmits hlive hpatch

theorem keyedBy_map_patchIf (test : Value → Bool) :
    KeyedBy admits (live.map (patchIf test patch)) :=
  hlive.map fun row hrow => ⟨isRow_patchIf hadmits (hlive.isRow row hrow) hpatch test,
    sameKey_patchIf hadmits (hlive.isRow row hrow) hpatch test⟩

/-- A row that was patched is left as it is, and so is one that fails the test. -/
theorem patchIf_again (hrow : row ∈ live) :
    patchIf test patch (patchIf test patch row) = patchIf test patch row := by
  by_cases htest : test row = true
  · have hpatched : patchIf test patch row = patched patch row := if_pos htest
    rw [hpatched, patchIf, patched_again hadmits (hlive.isRow row hrow) hpatch, ite_self]
  · have hsame : patchIf test patch row = row := if_neg htest
    rw [hsame, hsame]

theorem map_patchIf_again : (live.map (patchIf test patch)).map (patchIf test patch) =
    live.map (patchIf test patch) := by
  rw [List.map_map]
  apply List.map_congr_left
  intro row hrow
  exact patchIf_again hadmits hlive hpatch hrow

/-- The rows that are chosen the second time are fixed points: they pass the test. -/
theorem patched_of_mem_again (hrow : row ∈ (live.map (patchIf test patch)).filter test) :
    row.Distinct ∧ patched patch row = row := by
  obtain ⟨hmem, htest⟩ := List.mem_filter.mp hrow
  obtain ⟨old, hold, rfl⟩ := List.mem_map.mp hmem
  have hfixed : patchIf test patch (patchIf test patch old) = patchIf test patch old :=
    patchIf_again hadmits hlive hpatch hold
  rw [patchIf, if_pos htest] at hfixed
  exact ⟨(isRow_patchIf hadmits (hlive.isRow old hold) hpatch test).distinct, hfixed⟩

theorem countP_changes_again :
    ((live.map (patchIf test patch)).filter test).countP (changes patch) = 0 := by
  apply List.countP_eq_zero.mpr
  intro row hrow
  obtain ⟨hdistinct, hfixed⟩ := patched_of_mem_again hadmits hlive hpatch hrow
  rw [changes, hfixed, Value.equals_refl hdistinct]
  decide

/-- The rows that refuse the patch the second time are those that did so the first time. -/
theorem countP_conflicts_again :
    ((live.map (patchIf test patch)).filter test).countP (conflicts patch) =
      (live.filter test).countP (conflicts patch) := by
  rw [List.countP_filter, List.countP_filter, List.countP_map]
  apply List.countP_congr
  intro row hrow
  have hisRow := hlive.isRow row hrow
  have hkey : conflicts patch row = conflicts patch (patchIf test patch row) :=
    conflicts_eq_of_sameKey hisRow.distinct (isRow_patchIf hadmits hisRow hpatch test).distinct
      (sameKey_patchIf hadmits hisRow hpatch test) patch
  rw [Function.comp_apply, ← hkey]
  by_cases hconflict : conflicts patch row = true
  · -- a row that refuses the patch is not touched, so the test gives the same
    have hsame : patchIf test patch row = row := by
      rw [patchIf, patched, if_pos hconflict, ite_self]
    rw [hsame]
  · simp [hconflict]

/-- A test that goes by the key chooses the same rows again, in their new form. -/
theorem filter_map_patchIf (hkey : Term.ByKey test) :
    (live.map (patchIf test patch)).filter test = (live.filter test).map (patched patch) := by
  have htest (row : Value) (hrow : row ∈ live) : test (patchIf test patch row) = test row := by
    have hisRow := hlive.isRow row hrow
    exact (hkey _ _ hisRow.distinct (isRow_patchIf hadmits hisRow hpatch test).distinct
      (sameKey_patchIf hadmits hisRow hpatch test)).symm
  have hfilter : live.filter (test ∘ patchIf test patch) = live.filter test :=
    List.filter_congr htest
  rw [List.filter_map, hfilter]
  apply List.map_congr_left
  intro row hrow
  exact if_pos (List.mem_filter.mp hrow).2

end Again

end Rows

def Value.OneOrNone (v : Value) : Prop :=
  (v = .null ∧ selectedRows v = []) ∨ (v.isNull = false ∧ selectedRows v = [v])

theorem Selects.oneOrNone {admits : Value → Prop} {s : State} {e : Evaluated} {t : String}
    {live : List Value} (h : Selects s e t live) (hlive : KeyedBy admits live)
    (htype : e.type = .selection) : e.value.OneOrNone := by
  rcases h.value_cases with ⟨hother, -⟩ | ⟨hother, -⟩ | ⟨-, hnull | hmem⟩
  · rw [htype] at hother
    cases hother
  · rw [htype] at hother
    cases hother
  · exact .inl ⟨hnull, by rw [hnull]; rfl⟩
  · have hrow := hlive.isRow _ hmem
    obtain ⟨fields, _, hfields, -, -⟩ := hrow.exists_fields
    exact .inr ⟨by rw [hfields]; rfl, selectedRows_of_isRow hrow⟩

namespace Mutation

/-- What a second update tells of some rows, by what the first one told: as many are refused or
skipped, and the others are unchanged. -/
structure ToldAgain (rows : Nat) (first again : Value) : Prop where
  replaced_eq : again.counter "replaced" = 0
  errors_eq : again.counter "errors" = first.counter "errors"
  others : again.counter "errors" + again.counter "unchanged" = rows
  skipped_eq : again.counter "skipped" = first.counter "skipped"
  same_of_skipped : first.counter "skipped" ≠ 0 → again = first

structure OutcomeAgain (rows : Nat) (outcome outcome' : Except Error Value) : Prop where
  error : ∀ error, outcome = .error error → outcome' = .error error
  report : ∀ first, outcome = .ok first → ∃ again, outcome' = .ok again ∧ ToldAgain rows first again

theorem OutcomeAgain.of_error {rows : Nat} {error : Error} :
    OutcomeAgain rows (.error error) (.error error) := by
  constructor
  · exact fun _ h => h
  · intro first hfirst
    cases hfirst

theorem OutcomeAgain.of_ok {rows : Nat} {first again : Value} (h : ToldAgain rows first again) :
    OutcomeAgain rows (.ok first) (.ok again) := by
  constructor
  · intro error herror
    cases herror
  · intro value hvalue
    cases hvalue
    exact ⟨again, rfl, h⟩

/-- No row to update, both times. -/
theorem outcomeAgain_skipped :
    OutcomeAgain 0 (.ok Report.ofSkipped.toValue) (.ok Report.ofSkipped.toValue) := by
  apply OutcomeAgain.of_ok
  refine ⟨?_, rfl, ?_, rfl, fun _ => rfl⟩
  · rw [Report.counter_replaced]
    rfl
  · rw [Report.counter_errors, Report.counter_unchanged]
    rfl

section Outcome

variable {e e' : Evaluated} {patch : Fields} {outcome outcome' : Except Error Value}
  (h : Reported e (fun _ => patch) outcome) (h' : Reported e' (fun _ => patch) outcome')
  (hchanges : (selectedRows e'.value).countP (changes patch) = 0)
  (hconflicts : (selectedRows e'.value).countP (conflicts patch) =
    (selectedRows e.value).countP (conflicts patch))

include h h' hchanges hconflicts

theorem outcomeAgain_stream (htype : e.type.isStream = true) (htype' : e'.type.isStream = true)
    (hrows : (keysOf (selectedRows e'.value)).length = (selectedRows e'.value).length) :
    OutcomeAgain (selectedRows e'.value).length outcome outcome' := by
  obtain ⟨tally, rfl, -, herrors, -⟩ := h.many htype
  obtain ⟨tally', rfl, hreplaced', herrors', htotal'⟩ := h'.many htype'
  rw [hchanges] at hreplaced'
  rw [hconflicts, ← herrors] at herrors'
  rw [hrows, hreplaced'] at htotal'
  have hskipped (t : Tally) : t.report.toValue.counter "skipped" = 0 := Report.counter_skipped _
  apply OutcomeAgain.of_ok
  refine ⟨?_, ?_, ?_, ?_, fun hsome => absurd (hskipped tally) hsome⟩
  · rw [Report.counter_replaced]
    exact hreplaced'
  · rw [Report.counter_errors, Report.counter_errors]
    exact herrors'
  · rw [Report.counter_errors, Report.counter_unchanged]
    exact htotal'
  · rw [hskipped, hskipped]

theorem outcomeAgain_row (htype : e.type = .selection) (htype' : e'.type = .selection)
    (hsome : e.value.isNull = false) (hsome' : e'.value.isNull = false)
    (hrow : selectedRows e.value = [e.value]) (hrow' : selectedRows e'.value = [e'.value]) :
    OutcomeAgain (selectedRows e'.value).length outcome outcome' := by
  rw [hrow', List.countP_singleton] at hchanges
  rw [hrow, hrow', List.countP_singleton, List.countP_singleton] at hconflicts
  have hone := h.one htype
  have hagain := h'.one htype'
  rw [hsome, if_neg Bool.false_ne_true] at hone
  rw [hsome', if_neg Bool.false_ne_true] at hagain
  have hunchanged : changes patch e'.value = false := by simpa using hchanges
  by_cases hconflict : conflicts patch e.value = true
  · have hconflict' : conflicts patch e'.value = true := by simpa [hconflict] using hconflicts
    rw [hone, hagain, if_pos hconflict, if_pos hconflict']
    exact .of_error
  · have hconflict' : ¬ conflicts patch e'.value = true := by simpa [hconflict] using hconflicts
    rw [if_neg hconflict] at hone
    rw [if_neg hconflict', hunchanged, if_neg Bool.false_ne_true] at hagain
    rw [hrow', hone, hagain]
    have hupdated (replaced unchanged : Nat) : ToldAgain 1
        (Report.ofUpdated replaced unchanged).toValue (Report.ofUpdated 0 1).toValue := by
      refine ⟨?_, ?_, ?_, ?_, fun hskipped => absurd (Report.counter_skipped _) hskipped⟩
      · rw [Report.counter_replaced]
        rfl
      · rw [Report.counter_errors, Report.counter_errors]
        rfl
      · rw [Report.counter_errors, Report.counter_unchanged]
        rfl
      · rw [Report.counter_skipped, Report.counter_skipped]
        rfl
    cases changes patch e.value <;> exact .of_ok (hupdated _ _)

/-- A row that is there the first time is there the second time, so both runs update a row or
none. -/
theorem outcomeAgain_selection (htype : e.type = .selection) (htype' : e'.type = .selection)
    (hvalue : e.value.OneOrNone) (hvalue' : e'.value.OneOrNone)
    (hlength : (selectedRows e'.value).length = (selectedRows e.value).length) :
    OutcomeAgain (selectedRows e'.value).length outcome outcome' := by
  rcases hvalue with ⟨hnull, hnone⟩ | ⟨hsome, hrow⟩ <;>
    rcases hvalue' with ⟨hnull', hnone'⟩ | ⟨hsome', hrow'⟩
  · have hone := h.one htype
    have hagain := h'.one htype'
    rw [hnull, Value.isNull, if_pos rfl] at hone
    rw [hnull', Value.isNull, if_pos rfl] at hagain
    rw [hone, hagain, hnone']
    exact outcomeAgain_skipped
  · rw [hnone, hrow'] at hlength
    cases hlength
  · rw [hrow, hnone'] at hlength
    cases hlength
  · exact outcomeAgain_row h h' hchanges hconflicts htype htype' hsome hsome' hrow hrow'

end Outcome

def Steady (I : State → Prop) : Prop :=
  ∀ (s : State) (name : String) (rows : List Value), I s →
    I { s with store := s.store.load name rows }

section Steady

variable {I : State → Prop} {type : TypeTag} {table : Option String} {arg : Argument}
  (hI : Steady I)

include hI

theorem applyPatch_steady (index : Nat) (patch : Fields) :
    Keeps (Framed I type table) (fun _ => True) (applyPatch index patch) := by
  refine Keeps.bind Keeps.check fun live _ => ?_
  split
  · split
    · exact Keeps.pure trivial
    · exact Keeps.map (Keeps.setRows fun s name => hI s name _) fun _ _ => trivial
  · exact Keeps.pure trivial

/-- An update touches the state by writes to a table only. -/
theorem update_steady (receiver : Value) (options : Argument) (harg : arg.Good I fun _ => True) :
    Keeps (Framed I type table) (fun _ => True) (update receiver arg options) := by
  have happly (index : Nat) (patch : Fields) (_ : True) :
      Keeps (Framed I type table) (fun _ => True) (applyPatch index patch) :=
    applyPatch_steady hI index patch
  exact (update_of_applyPatch happly Value.hereditary_true trivial options harg).imp
    fun _ _ => trivial

end Steady

end Mutation

namespace Term

open Mutation

variable {s : State} {t : String} {target p : Term} {patch : Fields} {live : List Value}
  {type : TypeTag} {test : Value → Bool}

def targeted (target : Term) (s : State) : Nat :=
  match ((target.evaluate none).runFrom s).1 with
  | .ok e => (selectedRows e.value).length
  | .error _ => 0

/-- What a target chooses of patched rows refuses the patch or has it. -/
theorem Chooses.conflicts_or_restated {e : Evaluated} (hchooses : Chooses target t type test)
    (hkeyed : KeyedBy (fun _ => True) live) (hpatch : (Value.object patch).Distinct)
    (hrows : s.store.rows? t = some (live.map (patchIf test patch)))
    (heval : (target.evaluate none).runFrom s = (.ok e, s)) : ∀ row ∈ selectedRows e.value,
      conflicts patch row = true ∨ Value.Restated (· = ·) (some row) (.object patch) := by
  have hkeyed' := keyedBy_map_patchIf admission_true hkeyed hpatch test
  obtain ⟨e', heval', -, -, hselected⟩ := hchooses s _ hrows hkeyed'
  rw [heval] at heval'
  cases heval'
  rw [hselected]
  intro row hrow
  obtain ⟨hdistinct, hfixed⟩ := patched_of_mem_again admission_true hkeyed hpatch hrow
  exact TableQuery.conflicts_or_restated hdistinct hpatch hfixed

structure Updates (target p : Term) (t : String) (type : TypeTag) (test : Value → Bool)
    (patch : Fields) (live : List Value) (s : State) (e : Evaluated) : Prop where
  evaluate_eq : (target.evaluate none).runFrom s = (.ok e, s)
  type_eq : e.type = type
  selects : Selects s e t live
  selected_eq : selectedRows e.value = live.filter test
  reported : Reported e (fun _ => patch) (((call "update" target [p]).run none).runFrom s).1
  rows?_eq : ∀ name, (((call "update" target [p]).run none).runFrom s).2.store.rows? name =
    if name = t then some (live.map (patchIf test patch)) else s.store.rows? name
  source_eq : (((call "update" target [p]).run none).runFrom s).2.source = s.source
  drawn_eq : (((call "update" target [p]).run none).runFrom s).2.drawn = s.drawn

theorem Prepared.update_steady {e : Evaluated} {v : Value} {I : State → Prop}
    (h : Prepared s target [p] e [.datum v]) (hI : Steady I) (hs : I s) :
    I (((call "update" target [p]).run none).runFrom s).2 := by
  have hsteady : Keeps (Framed I e.type e.binding.table) (fun _ => True)
      (update e.value (.datum v) .undefined) := Mutation.update_steady hI _ _ trivial
  rw [h.runFrom_call (rfl : Registry.builtin.describe "update" = _)]
  exact (hsteady ⟨e.type, e.binding, s⟩ ⟨rfl, rfl, hs⟩).1.state

theorem exists_updates (hchooses : Chooses target t type test)
    (hlive : s.store.rows? t = some live) (hkeyed : KeyedBy (fun _ => True) live)
    (hp : p.mutates = false) (hrow : p.referencesRow = false)
    (hvalue : ((p.run none).runFrom s).1 = .ok (.object patch))
    (hpatch : (Value.object patch).Distinct) :
    ∃ e, Updates target p t type test patch live s e := by
  obtain ⟨e, heval, htype, hselects, hselected⟩ := hchooses s live hlive hkeyed
  have hargument := argumentIn_of_value hp hrow hvalue
  have hpatches (row : Value) (_ : row ∈ selectedRows e.value) :
      Patches (.datum (.object patch)) s (fun _ => patch) row := ⟨hpatch, rfl⟩
  obtain ⟨outcome, next, hrun, hreported, hrows⟩ :=
    exists_runFrom_update heval hselects hkeyed hargument hpatches
  rw [hselected, map_patchWhere_filter test patch hkeyed] at hrows
  have hprepared := prepared_one heval hargument
  refine ⟨e, heval, htype, hselects, hselected, ?_, ?_, ?_, ?_⟩
  · rw [hrun]
    exact hreported
  · rw [hrun]
    exact hrows
  · exact hprepared.update_steady (I := fun next => next.source = s.source) (fun _ _ _ h => h) rfl
  · exact hprepared.update_steady (I := fun next => next.drawn = s.drawn) (fun _ _ _ h => h) rfl

/-- The second of two such runs, on the table that the first one left. -/
theorem Updates.again {e e' : Evaluated} {s' : State}
    (h : Updates target p t type test patch live s e)
    (h' : Updates target p t type test patch (live.map (patchIf test patch)) s' e')
    (hkeyed : KeyedBy (fun _ => True) live) (hpatch : (Value.object patch).Distinct)
    (hkey : type = .selection → ByKey test) :
    OutcomeAgain (targeted target s') (((call "update" target [p]).run none).runFrom s).1
      (((call "update" target [p]).run none).runFrom s').1 := by
  have hkeyed' := keyedBy_map_patchIf admission_true hkeyed hpatch test
  have hchanges : (selectedRows e'.value).countP (changes patch) = 0 := by
    rw [h'.selected_eq]
    exact countP_changes_again admission_true hkeyed hpatch
  have hconflicts : (selectedRows e'.value).countP (conflicts patch) =
      (selectedRows e.value).countP (conflicts patch) := by
    rw [h.selected_eq, h'.selected_eq]
    exact countP_conflicts_again admission_true hkeyed hpatch
  have htype' : e'.type = e.type := h'.type_eq.trans h.type_eq.symm
  have htargeted : targeted target s' = (selectedRows e'.value).length := by
    rw [targeted, h'.evaluate_eq]
  rw [htargeted]
  -- a stream counts its rows; a single row is an error, a report or `null`
  by_cases hstream : e.type.isStream = true
  · apply outcomeAgain_stream h.reported h'.reported hchanges hconflicts hstream (htype' ▸ hstream)
    apply length_keysOf
    intro row hrow
    exact hkeyed'.isRow row ((h'.selects.selectedRows_subperm hkeyed').subset hrow)
  · have hone : e.type = .selection := by
      rcases h.selects.value_cases with ⟨htype, -⟩ | ⟨htype, -⟩ | ⟨htype, -⟩
      · exact absurd (by rw [htype]; rfl) hstream
      · exact absurd (by rw [htype]; rfl) hstream
      · exact htype
    have hlength : (selectedRows e'.value).length = (selectedRows e.value).length := by
      rw [h.selected_eq, h'.selected_eq, filter_map_patchIf admission_true hkeyed hpatch
        (hkey (h.type_eq.symm.trans hone)), List.length_map]
    exact outcomeAgain_selection h.reported h'.reported hchanges hconflicts hone
      (htype'.trans hone) (h.selects.oneOrNone hkeyed hone)
      (h'.selects.oneOrNone hkeyed' (htype'.trans hone)) hlength

/-- An update whose patch neither writes nor mentions the row, run again. After the first run every
row that the target selects refuses the patch or has it. If the patch is still the same, as any
patch is that does not name the table, then no table changes and the outcome is that of the first
run, with the rows that it replaced now unchanged. -/
theorem update_again
    (hkeyed : ∀ name rows, s.store.rows? name = some rows → KeyedBy (fun _ => True) rows)
    (htarget : Target t target) (hp : p.mutates = false) (hrow : p.referencesRow = false)
    (hdatums : ∀ v ∈ p.datums, v.Distinct)
    (hvalue : ((p.run none).runFrom s).1 = .ok (.object patch)) :
    let update := (call "update" target [p]).run none
    let once := update.runFrom s
    let twice := update.runFrom once.2
    (∀ e, (target.evaluate none).runFrom once.2 = (.ok e, once.2) → ∀ row ∈ selectedRows e.value,
        conflicts patch row = true ∨
          Value.Restated (· = ·) (some row) (.object patch)) ∧
      (t ∉ p.tables → ((p.run none).runFrom once.2).1 = .ok (.object patch)) ∧
      (((p.run none).runFrom once.2).1 = .ok (.object patch) →
        (∀ name, twice.2.store.rows? name = once.2.store.rows? name) ∧
        OutcomeAgain (targeted target once.2) once.1 twice.1) := by
  intro update once twice
  have htables (name : String) (rows : List Value) (hrows : s.store.rows? name = some rows)
      (row : Value) (hrow : row ∈ rows) : row.Distinct :=
    ((hkeyed name rows hrows).isRow row hrow).distinct
  have hpatch : (Value.object patch).Distinct := distinct_of_run htables hp hdatums (by simp) hvalue
  rcases htarget.fails_or_chooses s with ⟨error, hfails⟩ | ⟨live, type, test, hlive, hchooses, hkey⟩
  -- a target that fails writes nothing, so it fails again
  · have honce : once = (.error error, s) := run_call_error hfails "update" [p]
    have htwice : twice = (.error error, s) := by
      change update.runFrom once.2 = _
      rw [honce]
      exact honce
    rw [htwice, honce]
    refine ⟨fun e heval => ?_, fun _ => hvalue, fun _ => ⟨fun _ => rfl, .of_error⟩⟩
    rw [hfails] at heval
    cases heval
  · have hliveKeyed := hkeyed t live hlive
    have hagainKeyed := keyedBy_map_patchIf admission_true hliveKeyed hpatch test
    obtain ⟨e, hfirst⟩ := exists_updates hchooses hlive hliveKeyed hp hrow hvalue hpatch
    have hrows : once.2.store.rows? t = some (live.map (patchIf test patch)) := by
      rw [hfirst.rows?_eq, if_pos rfl]
    refine ⟨?_, ?_, ?_⟩
    · exact fun e heval => hchooses.conflicts_or_restated hliveKeyed hpatch hrows heval
    · intro hfree
      rw [← hvalue]
      apply run_congr hfirst.source_eq hfirst.drawn_eq
      intro name hname
      have hne : name ≠ t := fun heq => hfree (heq ▸ hname)
      rw [hfirst.rows?_eq, if_neg hne]
    · intro hagain
      obtain ⟨e', hsecond⟩ := exists_updates hchooses hrows hagainKeyed hp hrow hagain hpatch
      refine ⟨fun name => ?_, hfirst.again hsecond hliveKeyed hpatch hkey⟩
      rw [hsecond.rows?_eq, map_patchIf_again admission_true hliveKeyed hpatch]
      split
      · next hname => rw [hname, hrows]
      · rfl

/-- A row that is found by its key gets a field the first time and is unchanged the second time. -/
theorem update_again_get :
    let first : Value := .object [("id", .bool true), ("v", .object [("a", .string "x")])]
    let second : Value := .object [("id", .bool false)]
    let s : State := ⟨⟨[("t", [first, second])]⟩, ⟨fun _ _ => ""⟩, 0⟩
    let target : Term := .call "get" (.table "t") [.datum (.bool true)]
    let p : Term := .object [("v", .object [("b", .datum (.string "y"))])]
    let update := (call "update" target [p]).run none
    let once := update.runFrom s
    let twice := update.runFrom once.2
    once.1 = .ok (Report.ofUpdated 1 0).toValue ∧
      (∀ name, twice.2.store.rows? name = once.2.store.rows? name) ∧
      ∃ again, twice.1 = .ok again ∧ again.counter "replaced" = 0 ∧
        again.counter "unchanged" = 1 := by
  intro first second s target p update once twice
  have hkeyed (name : String) (rows : List Value) (hrows : s.store.rows? name = some rows) :
      KeyedBy (fun _ => True) rows := by
    have hname : (if name = "t" then some [first, second] else none) = some rows :=
      (Assoc.lookup_cons ..).symm.trans hrows
    split at hname
    · cases hname
      refine ⟨?_, by decide⟩
      simp only [List.forall_mem_cons]
      exact ⟨⟨by decide, _, rfl, trivial⟩, ⟨by decide, _, rfl, trivial⟩, by simp⟩
    · cases hname
  have hvalue : ((p.run none).runFrom s).1 =
      .ok (.object [("v", .object [("b", .string "y")])]) := by cbv
  have honce : once.1 = .ok (Report.ofUpdated 1 0).toValue := by cbv
  have htargeted : targeted target once.2 = 1 := by cbv
  have htarget : Target "t" target := .get (by decide)
  obtain ⟨-, hsame, hagain⟩ := update_again hkeyed htarget (rfl : p.mutates = false) rfl
    (by decide) hvalue
  obtain ⟨hrows, houtcome⟩ := hagain (hsame (by simp [p, tables, fieldTables]))
  obtain ⟨again, htwice, htold⟩ := houtcome.report _ honce
  have herrors : again.counter "errors" = 0 := htold.errors_eq.trans (Report.counter_errors _)
  have hothers : again.counter "errors" + again.counter "unchanged" = 1 :=
    htold.others.trans htargeted
  refine ⟨honce, hrows, again, htwice, htold.replaced_eq, ?_⟩
  omega

/-- Each time the row gets the rows of its table in the form that they have by then. And a patch
that writes may be the same both times and still change a table. -/
theorem not_update_again :
    let update (p : Term) := (call "update" (.table "t") [p]).run none
    let report (replaced : Nat) : Except Error Value := .ok (Tally.report ⟨replaced, 0, 0⟩).toValue
    (let row : Value := .object [("id", .bool true)]
      let once : Value := .object [("id", .bool true), ("all", .array [row])]
      let twice : Value := .object [("id", .bool true), ("all", .array [once])]
      let holds (row : Value) : State := ⟨⟨[("t", [row])]⟩, ⟨fun _ _ => ""⟩, 0⟩
      let reading : Term := .object [("all", .table "t")]
      KeyedBy (fun _ => True) [row] ∧ reading.mutates = false ∧ reading.referencesRow = false ∧
        (update reading).runFrom (holds row) = (report 1, holds once) ∧
        (update reading).runFrom (holds once) = (report 1, holds twice) ∧
        once.equals twice = false) ∧
      (let keyed (key : String) : Value := .object [("id", .string key)]
      let holds (drawn : Nat) (rows : List Value) : State :=
        ⟨⟨[("t", []), ("u", rows)]⟩, ⟨fun drawn _ => if drawn = 0 then "a" else "b"⟩, drawn⟩
      let writing : Term :=
        .object [("kind", .call "typeOf" (.call "insert" (.table "u") [.object []]) [])]
      writing.referencesRow = false ∧
        (update writing).runFrom (holds 0 []) = (report 0, holds 1 [keyed "a"]) ∧
        (update writing).runFrom (holds 1 [keyed "a"]) =
          (report 0, holds 2 [keyed "a", keyed "b"])) := by
  intro update report
  refine ⟨⟨⟨?_, by decide⟩, rfl, rfl, by cbv, by cbv, by decide⟩, rfl, by cbv, by cbv⟩
  simp only [List.forall_mem_cons]
  exact ⟨⟨by decide, _, rfl, trivial⟩, by simp⟩

end Term

end TableQuery
