import TableQuery.Action.Mutation
import TableQuery.Proofs.Keeps
import TableQuery.Proofs.Value.Fields

namespace TableQuery

namespace Mutation

variable {I : State → Prop} {V : Value → Prop} {type : TypeTag} {table : Option String}
  {row : Value} {rows : List Value} {arg : Argument}

theorem asPatch_ok {v : Value} {patch : Fields} (h : asPatch v = .ok patch) :
    v = .object patch := by
  cases v <;> cases h
  rfl

theorem patch_keeps (harg : arg.Good I V) (hrow : V row) :
    Keeps (Framed I type table) (fun patch => V (.object patch))
      (do ofExcept (asPatch (← Act.evalRow row arg)) : Act Fields) := by
  refine Keeps.bind (Keeps.evalRow harg hrow) fun v hv => ?_
  refine Keeps.ofExcept fun patch hpatch => ?_
  exact asPatch_ok hpatch ▸ hv

variable (happly : ∀ index patch, V (.object patch) →
  Keeps (Framed I type table) (fun _ => True) (applyPatch index patch))

include happly

theorem patchRow_of_applyPatch (done : Tally) (row : Value) {patch : Fields}
    (hpatch : V (.object patch)) :
    Keeps (Framed I type table) (fun _ => True) (patchRow done row patch) := by
  refine Keeps.bind Keeps.check fun index _ => ?_
  split
  · exact Keeps.pure trivial
  · refine Keeps.bind (happly _ _ hpatch) fun outcome _ => ?_
    split
    · exact Keeps.pure trivial
    · exact Keeps.pure trivial
    · exact Keeps.pure trivial

theorem updateRow_of_applyPatch (harg : arg.Good I V) (hrow : V row) :
    Keeps (Framed I type table) (fun report => report.inserted = none ∧ report.deleted = none)
      (updateRow row arg) := by
  refine Keeps.bind Keeps.check fun _ _ => ?_
  split
  · exact Keeps.pure ⟨rfl, rfl⟩
  · refine Keeps.bind (Keeps.evalRow harg hrow) fun v hv => ?_
    refine Keeps.bind (P := fun patch => V (.object patch))
      (Keeps.ofExcept fun patch hpatch => asPatch_ok hpatch ▸ hv) fun patch hpatch => ?_
    refine Keeps.bind Keeps.check fun index _ => ?_
    split
    · exact Keeps.pure ⟨rfl, rfl⟩
    · refine Keeps.bind (happly _ _ hpatch) fun outcome _ => ?_
      split
      · exact Keeps.pure ⟨rfl, rfl⟩
      · exact Keeps.pure ⟨rfl, rfl⟩
      · exact Keeps.throw

/-- All patches are built before the loop applies the first of them. -/
theorem updateRows_of_applyPatch (harg : arg.Good I V) (hrows : ∀ row ∈ rows, V row) :
    Keeps (Framed I type table) (fun report => report.inserted = none ∧ report.deleted = none)
      (updateRows rows arg) := by
  refine Keeps.bind Keeps.check fun _ _ => ?_
  split
  · exact Keeps.pure ⟨rfl, rfl⟩
  · refine Keeps.bind (Keeps.mapM fun row hrow => patch_keeps harg (hrows row hrow))
      fun patches hpatches => ?_
    refine Keeps.map (P := fun _ => True) (Keeps.foldlM trivial fun done _ pair hpair => ?_)
      fun _ _ => ⟨rfl, rfl⟩
    have hpatch : V (.object pair.2) := hpatches pair.2 (List.of_mem_zip hpair).2
    exact patchRow_of_applyPatch happly done pair.1 hpatch

theorem update_of_applyPatch (hV : Value.Hereditary V) {receiver : Value} (hreceiver : V receiver)
    (options : Argument) (harg : arg.Good I V) :
    Keeps (Framed I type table) (fun v => ∃ report : Report, v = report.toValue ∧
      report.inserted = none ∧ report.deleted = none) (update receiver arg options) := by
  unfold update
  split
  · exact Keeps.map (updateRows_of_applyPatch happly harg fun row hrow => hV.item hreceiver hrow)
      fun report hreport => ⟨report, rfl, hreport⟩
  · exact Keeps.map (updateRow_of_applyPatch happly harg hreceiver)
      fun report hreport => ⟨report, rfl, hreport⟩

end Mutation

end TableQuery
