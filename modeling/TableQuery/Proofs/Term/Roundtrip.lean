import TableQuery.Proofs.Term.Rendering

namespace TableQuery

namespace Term

theorem itemsRender_iff {items : List Term} {pieces : List (List Token)} :
    ItemsRender items pieces ↔ List.Forall₂ Renders items pieces := by
  induction items generalizing pieces with
  | nil => simp [ItemsRender]
  | cons t rest ih => simp [ItemsRender, List.forall₂_cons_left_iff, ih]

theorem fieldsRender_iff {fields : List (String × Term)} {pieces : List (List Token)} :
    FieldsRender fields pieces ↔ List.Forall₂ (InField Renders) fields pieces := by
  induction fields generalizing pieces with
  | nil => simp [FieldsRender]
  | cons pair rest ih =>
    obtain ⟨key, t⟩ := pair
    rw [FieldsRender, List.forall₂_cons_left_iff]
    constructor
    · rintro ⟨token, first, others, hkey, hfirst, hothers, rfl⟩
      exact ⟨_, others, ⟨token, first, hkey, hfirst, rfl⟩, ih.mp hothers, rfl⟩
    · rintro ⟨_, others, ⟨token, first, hkey, hfirst, rfl⟩, hothers, rfl⟩
      exact ⟨token, first, others, hkey, hfirst, ih.mpr hothers, rfl⟩

theorem itemsNormal_iff {items : List Term} :
    itemsNormal items = true ↔ ∀ t ∈ items, t.isNormal = true := by
  induction items with
  | nil => simp [itemsNormal]
  | cons t rest ih => simp [itemsNormal, ih]

theorem fieldsNormal_iff {fields : List (String × Term)} :
    fieldsNormal fields = true ↔ ∀ pair ∈ fields, pair.2.isNormal = true := by
  induction fields with
  | nil => simp [fieldsNormal]
  | cons pair rest ih => simp [fieldsNormal, ih]

theorem ofItems_datums (vs : List Value) : ofItems (vs.map datum) = datum (.array vs) := by
  have hmapM : (vs.map datum).mapM datum? = some vs := by
    induction vs with
    | nil => rfl
    | cons v rest ih => simp [datum?, ih]
  simp [ofItems, hmapM]

theorem ofFields_datums {fields : Fields} (h : (Fields.keys fields).Nodup) :
    ofFields (fields.map fun pair => (pair.1, datum pair.2)) = datum (.object fields) := by
  have hmapM : (fields.map fun pair => (pair.1, datum pair.2)).mapM
      (fun pair : String × Term => pair.2.datum?.map fun v => (pair.1, v)) = some fields := by
    clear h
    induction fields with
    | nil => rfl
    | cons pair rest ih =>
      rw [List.map_cons, List.mapM_cons, ih]
      rfl
  unfold ofFields
  split
  · next pairs hpairs =>
    obtain rfl : pairs = fields := Option.some.inj (hpairs.symm.trans hmapM)
    rw [Fields.ofList_of_nodup h]
  · next hnone => cases hnone.symm.trans hmapM

theorem isSome_of_mapM_some {α β : Type} {f : α → Option β} {xs : List α} {ys : List β}
    (h : xs.mapM f = some ys) : ∀ x ∈ xs, (f x).isSome = true := by
  induction xs generalizing ys with
  | nil => simp
  | cons x rest ih =>
    rw [List.mapM_cons] at h
    obtain ⟨y, hy, h⟩ := Option.bind_eq_some_iff.mp h
    obtain ⟨others, hothers, -⟩ := Option.bind_eq_some_iff.mp h
    exact List.forall_mem_cons.mpr ⟨by simp [hy], ih hothers⟩

theorem ofItems_of_not_datums {items : List Term}
    (h : items.all (fun t => t.datum?.isSome) = false) : ofItems items = array items := by
  unfold ofItems
  split
  · next vs hvs =>
    have hall := List.all_eq_true.mpr (isSome_of_mapM_some hvs)
    rw [hall] at h
    cases h
  · rfl

theorem ofFields_of_not_datums {fields : List (String × Term)}
    (h : fields.all (fun pair => pair.2.datum?.isSome) = false) :
    ofFields fields = object fields := by
  unfold ofFields
  split
  · next pairs hpairs =>
    have hall : fields.all (fun pair => pair.2.datum?.isSome) = true := by
      refine List.all_eq_true.mpr fun pair hpair => ?_
      simpa using isSome_of_mapM_some hpairs pair hpair
    rw [hall] at h
    cases h
  · rfl

/-- Every term has a rendering, by induction on the term. -/
theorem exists_renders (t : Term) : ∃ tokens, t.Renders tokens := by
  induction t using Term.induction with
  | table name =>
    exact ⟨_, by rw [Renders]; exact ⟨.ofString name, Token.isString_ofString name, rfl⟩⟩
  | datum v => exact ⟨v.tokens, by rw [Renders]; exact .inl v.spelled_tokens⟩
  | row => exact ⟨_, by rw [Renders]⟩
  | array items ih =>
    obtain ⟨pieces, hpieces⟩ := exists_forall₂ ih
    exact ⟨_, by rw [Renders]; exact ⟨pieces, false, itemsRender_iff.mpr hpieces, rfl⟩⟩
  | object fields ih =>
    have hfields : ∀ pair ∈ fields, ∃ piece, InField Renders pair piece := by
      intro pair hpair
      obtain ⟨first, hfirst⟩ := ih pair hpair
      exact ⟨_, .ofString pair.1, first, Token.isString_ofString pair.1, hfirst, rfl⟩
    obtain ⟨pieces, hpieces⟩ := exists_forall₂ hfields
    exact ⟨_, by rw [Renders]; exact ⟨pieces, false, fieldsRender_iff.mpr hpieces, rfl⟩⟩
  | call action receiver args hreceiver hargs =>
    obtain ⟨front, hfront⟩ := hreceiver
    obtain ⟨pieces, hpieces⟩ := exists_forall₂ hargs
    refine ⟨front ++ .dot :: .word action :: .opening .round ::
      (commaSeparated false pieces ++ [.closing .round]), ?_⟩
    rw [Renders]
    exact ⟨front, pieces, false, hfront, itemsRender_iff.mpr hpieces, .inl rfl⟩

/-- A spelling of a value is read as the value, by induction on the value. -/
theorem written_of_spelled {v : Value} (hdistinct : v.distinctKeys = true)
    (hnumbers : ∀ n ∈ v.numbers, n.ReadsBack) {ts : List Token} (h : v.Spelled ts) :
    Written (datum v) ts := by
  induction v using Value.induction generalizing ts with
  | null =>
    rw [Value.Spelled] at h
    subst h
    exact ⟨.last (by decide), fun _ => rfl⟩
  | bool b =>
    rw [Value.Spelled] at h
    subst h
    cases b
    · exact ⟨.last (by decide), fun _ => rfl⟩
    · exact ⟨.last (by decide), fun _ => rfl⟩
  | number n =>
    rw [Value.Spelled] at h
    subst h
    obtain ⟨hsound, hread⟩ := (hnumbers n (by simp [Value.numbers])).token
    refine ⟨.number hsound (by simp [hread]), fun stack => ?_⟩
    simp [Reading.run?_cons, Reading.run?_nil, Reading.step?, Reading.begin?, hread]
  | string s =>
    rw [Value.Spelled] at h
    obtain ⟨token, hs, rfl⟩ := h
    refine ⟨Legible.nil.string hs, fun stack => ?_⟩
    have hstring : token.string? = some s := hs.string?_eq
    obtain ⟨single, body, rfl, -⟩ := hs
    simp [Reading.run?_cons, Reading.run?_nil, Reading.step?, Reading.begin?, hstring]
  | array items ih =>
    rw [Value.Spelled] at h
    obtain ⟨pieces, trailing, hpieces, rfl⟩ := h
    rw [Value.itemsSpelled_iff] at hpieces
    have hitems : List.Forall₂ Written (items.map datum) pieces := by
      refine List.forall₂_map_left_iff.mpr (forall₂_imp hpieces fun item hitem piece => ?_)
      exact ih item hitem (Value.distinctKeys_array.mp hdistinct item hitem)
        fun n hn => hnumbers n (Value.mem_itemNumbers.mpr ⟨item, hitem, hn⟩)
    -- the array is what the literal of its items is folded to
    rw [← ofItems_datums]
    exact .array hitems trailing
  | object fields ih =>
    rw [Value.Spelled] at h
    obtain ⟨pieces, trailing, hpieces, rfl⟩ := h
    rw [Value.fieldsSpelled_iff] at hpieces
    obtain ⟨hnodup, hvalues⟩ := Value.distinctKeys_object.mp hdistinct
    have hfields : List.Forall₂ (InField Written)
        (fields.map fun pair => (pair.1, datum pair.2)) pieces := by
      refine List.forall₂_map_left_iff.mpr (forall₂_imp hpieces fun pair hpair piece => ?_)
      have hvalue : ∀ first, pair.2.Spelled first → Written (datum pair.2) first := fun first =>
        ih pair hpair (hvalues pair hpair)
          fun n hn => hnumbers n (Value.mem_fieldNumbers.mpr ⟨pair, hpair, hn⟩)
      exact InField.imp (S := fun v => Written (datum v)) hvalue
    rw [← ofFields_datums hnodup]
    exact .object hfields trailing

/-- A rendering of a term in normal form is read as the term, by induction on the term. -/
theorem written_of_renders {t : Term} (hnormal : t.isNormal = true)
    (hnumbers : ∀ v ∈ t.datums, ∀ n ∈ v.numbers, n.ReadsBack) {ts : List Token}
    (h : t.Renders ts) : Written t ts := by
  induction t using Term.induction generalizing ts with
  | table name =>
    rw [Renders] at h
    obtain ⟨token, hname, rfl⟩ := h
    exact .table hname
  | datum v =>
    rw [Renders] at h
    have hspelled : ∀ {piece}, v.Spelled piece → Written (datum v) piece :=
      written_of_spelled hnormal (hnumbers v (by simp [datums]))
    rcases h with hv | ⟨piece, hv, rfl⟩
    · exact hspelled hv
    · exact (hspelled hv).expr
  | row =>
    rw [Renders] at h
    subst h
    exact .row
  | array items ih =>
    rw [Renders] at h
    obtain ⟨pieces, trailing, hpieces, rfl⟩ := h
    rw [itemsRender_iff] at hpieces
    simp only [isNormal, Bool.and_eq_true, Bool.not_eq_true', itemsNormal_iff] at hnormal
    -- the literal is not folded, as not all its items are datums
    obtain ⟨hmixed, hitems⟩ := hnormal
    have hwritten : List.Forall₂ Written items pieces := by
      refine forall₂_imp hpieces fun t ht piece => ?_
      exact ih t ht (hitems t ht) fun v hv => hnumbers v (mem_itemDatums.mpr ⟨t, ht, hv⟩)
    rw [← ofItems_of_not_datums hmixed]
    exact .array hwritten trailing
  | object fields ih =>
    rw [Renders] at h
    obtain ⟨pieces, trailing, hpieces, rfl⟩ := h
    rw [fieldsRender_iff] at hpieces
    simp only [isNormal, Bool.and_eq_true, Bool.not_eq_true', fieldsNormal_iff] at hnormal
    obtain ⟨hmixed, hfields⟩ := hnormal
    have hwritten : List.Forall₂ (InField Written) fields pieces := by
      refine forall₂_imp hpieces fun pair hpair piece => InField.imp fun first => ?_
      exact ih pair hpair (hfields pair hpair)
        fun v hv => hnumbers v (mem_fieldDatums.mpr ⟨pair, hpair, hv⟩)
    rw [← ofFields_of_not_datums hmixed]
    exact .object hwritten trailing
  | call action receiver args hreceiver hargs =>
    rw [Renders] at h
    obtain ⟨front, pieces, trailing, hfront, hpieces, hts⟩ := h
    rw [itemsRender_iff] at hpieces
    simp only [isNormal, Bool.and_eq_true, itemsNormal_iff] at hnormal
    obtain ⟨⟨haction, hnormalReceiver⟩, hnormalArgs⟩ := hnormal
    simp only [datums, List.mem_append] at hnumbers
    -- the arguments are written alike behind the name of the action and without it
    have hfirst : Written receiver front :=
      hreceiver hnormalReceiver (fun v hv => hnumbers v (.inl hv)) hfront
    have hwritten : List.Forall₂ Written args pieces := by
      refine forall₂_imp hpieces fun t ht piece => ?_
      exact hargs t ht (hnormalArgs t ht)
        fun v hv => hnumbers v (.inr (mem_itemDatums.mpr ⟨t, ht, hv⟩))
    rcases hts with rfl | ⟨rfl, rfl⟩
    · simpa using hfirst.method hwritten trailing haction
    · simpa using hfirst.bracket hwritten trailing

/-- The texts of a rendering are parsed as the term, and there is at least one such text. -/
theorem parse_renders {t : Term} (hnormal : t.isNormal = true)
    (hnumbers : ∀ v ∈ t.datums, ∀ n ∈ v.numbers, n.ReadsBack) :
    (∃ (tokens : List Token) (text : String),
        t.Renders tokens ∧ Token.Spaced tokens text.toList) ∧
      ∀ (tokens : List Token) (text : String),
        t.Renders tokens → Token.Spaced tokens text.toList → parse text = .ok t := by
  constructor
  · obtain ⟨tokens, htokens⟩ := exists_renders t
    refine ⟨tokens, String.ofList (tokens.flatMap Token.chars), htokens, ?_⟩
    rw [String.toList_ofList]
    exact Token.spaced_flatMap tokens
  · intro tokens text htokens hspaced
    have hwritten : Written t tokens := written_of_renders hnormal hnumbers htokens
    have hscan : Token.scan? text = some tokens :=
      hspaced.run?_idle hwritten.legible.sound hwritten.legible.joined
    have hread : ofTokens? tokens = some t := by
      unfold ofTokens?
      rw [hwritten.reads []]
    have hfault : tokens.findSome? Token.fault? = none :=
      List.findSome?_eq_none_iff.mpr hwritten.legible.faultless
    simp only [parse, hscan, hread, hfault]

/-- An escaped apostrophe in single quotes, a comma behind the last argument, and blanks. -/
theorem parse_renders_row :
    let t : Term := .call "get" .row [.datum (.string "it's"), .datum (.number (.int 1))]
    t.isNormal = true ∧ (∀ v ∈ t.datums, ∀ n ∈ v.numbers, n.ReadsBack) ∧
      parse "r.row .get('it\\'s',\t1,\n)" = .ok t := by
  intro t
  have hnumbers : ∀ v ∈ t.datums, ∀ n ∈ v.numbers, n.ReadsBack := by
    have hone : (Number.int 1).ReadsBack := by
      rw [Number.ReadsBack]
      cbv
    simpa [t, datums, itemDatums, Value.numbers] using hone
  have hstring : (Token.quoted true "it\\'s").IsString "it's" := by
    refine ⟨true, _, rfl, ?_⟩
    have hi : Quoted.SpellsChar true 'i' ['i'] := .plain (by decide) (by decide) (by decide)
    have ht : Quoted.SpellsChar true 't' ['t'] := .plain (by decide) (by decide) (by decide)
    have hs : Quoted.SpellsChar true 's' ['s'] := .plain (by decide) (by decide) (by decide)
    exact .cons hi (.cons ht (.cons (.apostrophe rfl) (.cons hs .nil)))
  have htokens : t.Renders [.word "r", .dot, .word "row", .dot, .word "get", .opening .round,
      .quoted true "it\\'s", .comma, .number "1", .comma, .closing .round] := by
    rw [Renders]
    refine ⟨[.word "r", .dot, .word "row"], [[.quoted true "it\\'s"], [.number "1"]], true, ?_,
      itemsRender_iff.mpr (.cons ?_ (.cons ?_ .nil)), .inl rfl⟩
    · rw [Renders]
    · rw [Renders, Value.Spelled]
      exact .inl ⟨_, hstring, rfl⟩
    · rw [Renders, Value.Spelled]
      exact .inl rfl
  have hspaced : Token.Spaced [.word "r", .dot, .word "row", .dot, .word "get", .opening .round,
      .quoted true "it\\'s", .comma, .number "1", .comma, .closing .round]
      "r.row .get('it\\'s',\t1,\n)".toList := by
    have direct : ∀ c ∈ [], isBlank c = true := by simp
    have space : ∀ c ∈ [' '], isBlank c = true := by simp [isBlank]
    have tab : ∀ c ∈ ['\t'], isBlank c = true := by simp [isBlank]
    have newline : ∀ c ∈ ['\n'], isBlank c = true := by simp [isBlank]
    exact .cons direct <| .cons direct <| .cons direct <| .cons space <| .cons direct <|
      .cons direct <| .cons direct <| .cons direct <| .cons tab <| .cons direct <|
      .cons newline <| .nil direct
  exact ⟨by decide, hnumbers, (parse_renders (by decide) hnumbers).2 _ _ htokens hspaced⟩

end Term

end TableQuery
