import TableQuery.Action.Range

namespace TableQuery.Range

open Act

-- The two searches are loops of their own. What they have in common is that they ask the predicate
-- of each row in turn; `offsetsOf` then takes the positions that are flagged and `filter` the rows.
def flags (run : Option Value → Eval Value) (rows : List Value) : Act (List Bool) :=
  rows.mapM fun row => return (← ofEval (run (some row))).isTruthy

def flagged {α : Type} (items : List α) (flags : List Bool) : List α :=
  ((items.zip flags).filter Prod.snd).map Prod.fst

variable {α β : Type}

@[simp] theorem flagged_cons (item : α) (items : List α) (flag : Bool) (flags : List Bool) :
    flagged (item :: items) (flag :: flags) =
      if flag then item :: flagged items flags else flagged items flags := by
  cases flag <;> rfl

/-- A loop that adds what it picks from the items for which the answer is yes. -/
theorem foldlM_pick (ask : α → Act Bool) (pick : α → β) (items : List α) (found : List β) :
    items.foldlM (fun found item => do
        if ← ask item then return found ++ [pick item] else return found) found =
      (do return found ++ flagged (items.map pick) (← items.mapM ask) : Act (List β)) := by
  induction items generalizing found with
  | nil => simp [flagged]
  | cons item rest ih =>
    rw [List.foldlM_cons, List.map_cons, List.mapM_cons]
    simp only [bind_assoc, pure_bind, flagged_cons]
    congr 1
    funext flag
    cases flag <;> simp [ih]

theorem offsetsWhere_eq (run : Option Value → Eval Value) (rows : List Value) :
    offsetsWhere run rows =
      (do return flagged (List.range rows.length) (← flags run rows) : Act (List Nat)) := by
  let ask (row : Value) : Act Bool := return (← ofEval (run (some row))).isTruthy
  have hask : rows.zipIdx.mapM (fun item => ask item.1) = flags run rows := by
    have hrows : (rows.zipIdx.map Prod.fst).mapM ask =
        rows.zipIdx.mapM fun item => ask item.1 := List.mapM_map
    rw [List.zipIdx_map_fst] at hrows
    exact hrows.symm
  have hloop := foldlM_pick (fun item => ask item.1) Prod.snd rows.zipIdx []
  rw [hask, List.zipIdx_map_snd, ← List.range_eq_range'] at hloop
  simpa [offsetsWhere, ask] using hloop

theorem rowsWhere_eq (run : Option Value → Eval Value) (rows : List Value) :
    rowsWhere run rows = (do return flagged rows (← flags run rows) : Act (List Value)) := by
  have hloop := foldlM_pick (fun row => return (← ofEval (run (some row))).isTruthy) id rows []
  simpa [rowsWhere, flags] using hloop

theorem offsetsWhere_bind (run : Option Value → Eval Value) (rows : List Value)
    (f : List Nat → Act α) : offsetsWhere run rows >>= f =
      flags run rows >>= fun flags => f (flagged (List.range rows.length) flags) := by
  rw [offsetsWhere_eq, bind_assoc]
  simp only [pure_bind]

theorem rowsWhere_bind (run : Option Value → Eval Value) (rows : List Value)
    (f : List Value → Act α) : rowsWhere run rows >>= f =
      flags run rows >>= fun flags => f (flagged rows flags) := by
  rw [rowsWhere_eq, bind_assoc]
  simp only [pure_bind]

end TableQuery.Range
