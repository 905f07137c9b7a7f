import TableQuery.Proofs.Term.Evaluation
import TableQuery.Term.Reader

namespace TableQuery.Term

def Holds (V : Value → Prop) (t : Term) : Prop := ∀ v ∈ t.datums, V v

variable {V : Value → Prop}

theorem holds_call {action : String} {receiver : Term} {args : List Term} :
    (call action receiver args).Holds V ↔ receiver.Holds V ∧ ∀ t ∈ args, t.Holds V := by
  simp only [Holds, datums, List.mem_append, mem_itemDatums]
  constructor
  · exact fun h => ⟨fun v hv => h v (.inl hv), fun t ht v hv => h v (.inr ⟨t, ht, hv⟩)⟩
  · rintro ⟨hr, ha⟩ v (hv | ⟨t, ht, hv⟩)
    · exact hr v hv
    · exact ha t ht v hv

theorem holds_datum {v : Value} : (datum v).Holds V ↔ V v := by simp [Holds, datums]

theorem datum_of_datum? {t : Term} {v : Value} (h : t.datum? = some v) : t = datum v := by
  cases t <;> cases h
  rfl

theorem mem_of_mapM_some {α β : Type} {f : α → Option β} {xs : List α} {ys : List β} {y : β}
    (h : xs.mapM f = some ys) (hy : y ∈ ys) : ∃ x ∈ xs, f x = some y := by
  induction xs generalizing ys with
  | nil =>
    rw [List.mapM_nil] at h
    cases h
    simp at hy
  | cons x rest ih =>
    rw [List.mapM_cons] at h
    obtain ⟨first, hfirst, h⟩ := Option.bind_eq_some_iff.mp h
    obtain ⟨others, hothers, h⟩ := Option.bind_eq_some_iff.mp h
    cases h
    rcases List.mem_cons.mp hy with rfl | hmem
    · exact ⟨x, List.mem_cons_self, hfirst⟩
    · obtain ⟨z, hz, hfz⟩ := ih hothers hmem
      exact ⟨z, List.mem_cons_of_mem _ hz, hfz⟩

theorem holds_ofItems (hV : Value.Hereditary V) {items : List Term}
    (h : ∀ t ∈ items, t.Holds V) : (ofItems items).Holds V := by
  unfold ofItems
  split
  · next vs hvs =>
    refine holds_datum.mpr (hV.array fun v hv => ?_)
    obtain ⟨t, ht, hdatum⟩ := mem_of_mapM_some hvs hv
    exact holds_datum.mp (datum_of_datum? hdatum ▸ h t ht)
  · intro v hv
    rw [datums, mem_itemDatums] at hv
    obtain ⟨t, ht, hv⟩ := hv
    exact h t ht v hv

theorem holds_ofFields (hV : Value.Hereditary V) {fields : List (String × Term)}
    (h : ∀ pair ∈ fields, pair.2.Holds V) : (ofFields fields).Holds V := by
  unfold ofFields
  split
  · next pairs hpairs =>
    refine holds_datum.mpr (hV.ofList fun pair hpair => ?_)
    obtain ⟨field, hfield, hdatum⟩ := mem_of_mapM_some hpairs hpair
    obtain ⟨v, hv, rfl⟩ := Option.map_eq_some_iff.mp hdatum
    exact holds_datum.mp (datum_of_datum? hv ▸ h field hfield)
  · intro v hv
    rw [datums, mem_fieldDatums] at hv
    obtain ⟨pair, hpair, hv⟩ := hv
    exact h pair hpair v hv

def Open.Holds (V : Value → Prop) : Open → Prop
  | call _ receiver args => receiver.Holds V ∧ ∀ t ∈ args, t.Holds V
  | group => True
  | items done => ∀ t ∈ done, t.Holds V
  | fields done _ => ∀ pair ∈ done, pair.2.Holds V

namespace Reading

def Holds (V : Value → Prop) : Reading → Prop
  | term stack | termOrEnd stack | root stack | source stack | tableOpen stack | tableName stack
  | tableClose _ stack | groupOpen stack => ∀ o ∈ stack, o.Holds V
  | done t stack | method t stack | arguments t _ stack => t.Holds V ∧ ∀ o ∈ stack, o.Holds V
  | keyOrEnd fields stack | colon fields _ stack =>
    (∀ pair ∈ fields, pair.2.Holds V) ∧ ∀ o ∈ stack, o.Holds V

theorem begin?_holds (hV : Value.Hereditary V) {stack : List Open} {token : Token}
    {next : Reading} (h : begin? stack token = some next) (hstack : ∀ o ∈ stack, o.Holds V) :
    next.Holds V := by
  unfold begin? at h
  split at h <;> cases h
  · exact hstack
  · exact ⟨holds_datum.mpr hV.null, hstack⟩
  · exact ⟨holds_datum.mpr (hV.bool _), hstack⟩
  · exact ⟨holds_datum.mpr (hV.bool _), hstack⟩
  · exact ⟨holds_datum.mpr (hV.number _), hstack⟩
  · exact ⟨holds_datum.mpr (hV.string _), hstack⟩
  · exact List.forall_mem_cons.mpr ⟨by simp [Open.Holds], hstack⟩
  · exact ⟨by simp, hstack⟩

theorem continue?_holds (hV : Value.Hereditary V) {t : Term} {stack : List Open} {token : Token}
    {next : Reading} (h : continue? t stack token = some next) (ht : t.Holds V)
    (hstack : ∀ o ∈ stack, o.Holds V) : next.Holds V := by
  unfold continue? at h
  split at h <;> cases h
  · exact ⟨ht, hstack⟩
  · exact List.forall_mem_cons.mpr ⟨⟨ht, by simp⟩, hstack⟩
  all_goals rw [List.forall_mem_cons] at hstack
  · obtain ⟨⟨hr, ha⟩, hrest⟩ := hstack
    exact List.forall_mem_cons.mpr ⟨⟨hr, List.forall_mem_cons.mpr ⟨ht, ha⟩⟩, hrest⟩
  · obtain ⟨⟨hr, ha⟩, hrest⟩ := hstack
    refine ⟨holds_call.mpr ⟨hr, fun t' ht' => ?_⟩, hrest⟩
    rcases List.mem_cons.mp (List.mem_reverse.mp ht') with rfl | hmem
    · exact ht
    · exact ha t' hmem
  · exact ⟨ht, hstack.2⟩
  · exact List.forall_mem_cons.mpr ⟨List.forall_mem_cons.mpr ⟨ht, hstack.1⟩, hstack.2⟩
  · refine ⟨holds_ofItems hV fun t' ht' => ?_, hstack.2⟩
    rcases List.mem_cons.mp (List.mem_reverse.mp ht') with rfl | hmem
    · exact ht
    · exact hstack.1 t' hmem
  · exact ⟨List.forall_mem_cons.mpr ⟨ht, hstack.1⟩, hstack.2⟩
  · refine ⟨holds_ofFields hV fun pair hpair => ?_, hstack.2⟩
    rcases List.mem_cons.mp (List.mem_reverse.mp hpair) with rfl | hmem
    · exact ht
    · exact hstack.1 pair hmem

/-- One token: a literal that is closed is put together from terms held before. -/
theorem step?_holds (hV : Value.Hereditary V) {reading next : Reading} {token : Token}
    (h : reading.step? token = some next) (hreading : reading.Holds V) : next.Holds V := by
  -- one case for each kind of place that a token may stand in; most of them hold no new term
  unfold step? at h
  split at h
  · exact begin?_holds hV h hreading
  · cases h
    obtain ⟨⟨hr, ha⟩, hrest⟩ := List.forall_mem_cons.mp hreading
    exact ⟨holds_call.mpr ⟨hr, fun t ht => ha t (List.mem_reverse.mp ht)⟩, hrest⟩
  · cases h
    obtain ⟨hitems, hrest⟩ := List.forall_mem_cons.mp hreading
    exact ⟨holds_ofItems hV fun t ht => hitems t (List.mem_reverse.mp ht), hrest⟩
  · exact begin?_holds hV h hreading
  · exact continue?_holds hV h hreading.1 hreading.2
  · cases h
    exact hreading
  · cases h
    exact List.forall_mem_cons.mpr ⟨⟨hreading.1, by simp⟩, hreading.2⟩
  · cases h
    exact hreading
  · cases h
    exact hreading
  · cases h
    exact hreading
  · cases h
    exact ⟨by simp [Term.Holds, datums], hreading⟩
  · cases h
    exact hreading
  · cases h
    exact hreading
  · cases h
    exact ⟨by simp [Term.Holds, datums], hreading⟩
  · cases h
    exact List.forall_mem_cons.mpr ⟨trivial, hreading⟩
  · cases h
    exact ⟨holds_ofFields hV fun pair hp => hreading.1 pair (List.mem_reverse.mp hp), hreading.2⟩
  · cases h
    exact hreading
  · cases h
    exact hreading
  · cases h
    exact List.forall_mem_cons.mpr hreading
  · cases h

/-- A run of tokens, by induction on them. -/
theorem run?_holds (hV : Value.Hereditary V) {reading last : Reading} {tokens : List Token}
    (h : reading.run? tokens = some last) (hreading : reading.Holds V) : last.Holds V := by
  induction tokens generalizing reading with
  | nil =>
    cases h
    exact hreading
  | cons token rest ih =>
    rw [run?, List.foldlM_cons] at h
    obtain ⟨next, hstep, hrest⟩ := Option.bind_eq_some_iff.mp h
    exact ih hrest (step?_holds hV hstep hreading)

end Reading

theorem holds_of_parse (hV : Value.Hereditary V) {text : String} {t : Term}
    (h : parse text = .ok t) : t.Holds V := by
  unfold parse at h
  split at h
  · cases h
  · next tokens _ =>
    split at h
    · cases h
    · next read hread =>
      split at h <;> cases h
      unfold ofTokens? at hread
      split at hread <;> cases hread
      next hrun => exact (Reading.run?_holds hV hrun (by simp [Reading.Holds])).1

/-- No object in a query that was read has two fields of one name. -/
theorem distinctKeys_of_parse {text : String} {t : Term} (h : parse text = .ok t) :
    ∀ v ∈ t.datums, v.distinctKeys = true :=
  holds_of_parse Value.hereditary_distinct h

end TableQuery.Term
