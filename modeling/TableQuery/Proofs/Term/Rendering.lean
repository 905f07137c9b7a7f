import TableQuery.Proofs.Term.Evaluation
import TableQuery.Proofs.Value.NumberText
import TableQuery.Proofs.Value.Spelling
import TableQuery.Term.Rendering

namespace TableQuery

open Token (mayPrecede)

structure Legible (ts : List Token) : Prop where
  sound : ∀ t ∈ ts, t.Sound
  faultless : ∀ t ∈ ts, t.fault? = none
  joined : Token.Joined ts

namespace Legible

theorem nil : Legible [] := ⟨by simp, by simp, List.isChain_singleton _⟩

theorem cons {t : Token} {ts : List Token} (ht : t.Sound) (hfault : t.fault? = none)
    (hts : Legible ts) (h : ∀ u, (ts ++ [Token.comma]).head? = some u → mayPrecede t u = true) :
    Legible (t :: ts) where
  sound := List.forall_mem_cons.mpr ⟨ht, hts.sound⟩
  faultless := List.forall_mem_cons.mpr ⟨hfault, hts.faultless⟩
  joined := List.isChain_cons.mpr ⟨h, hts.joined⟩

/-- Punctuation may stand behind whatever a comma may stand behind. -/
theorem append {front back : List Token} {p : Token} (hfront : Legible front)
    (hp : p.isAlphanumeric = false) (hback : Legible (p :: back)) :
    Legible (front ++ p :: back) where
  sound t ht := (List.mem_append.mp ht).elim (hfront.sound t) (hback.sound t)
  faultless t ht := (List.mem_append.mp ht).elim (hfront.faultless t) (hback.faultless t)
  joined := by
    obtain ⟨hchain, -, hlast⟩ := List.isChain_append.mp hfront.joined
    rw [Token.Joined, List.append_assoc]
    refine List.isChain_append.mpr ⟨hchain, hback.joined, fun t ht u hu => ?_⟩
    -- only a point may not stand in front of a comma
    have hcomma : mayPrecede t .comma = true := hlast t ht .comma rfl
    obtain rfl : p = u := by simpa using hu
    cases t with
    | dot => cases hcomma
    | word | number => simp [mayPrecede, hp]
    | quoted | comma | colon | opening | closing => rfl

theorem closing (b : Bracket) : Legible [.closing b] :=
  nil.cons (Token.sound_closing b) rfl fun _ _ => rfl

theorem opening {ts : List Token} (b : Bracket) (h : Legible ts) : Legible (.opening b :: ts) :=
  h.cons (Token.sound_opening b) rfl fun _ _ => rfl

theorem comma {ts : List Token} (h : Legible ts) : Legible (.comma :: ts) :=
  h.cons Token.sound_comma rfl fun _ _ => rfl

theorem colon {ts : List Token} (h : Legible ts) : Legible (.colon :: ts) :=
  h.cons Token.sound_colon rfl fun _ _ => rfl

/-- A word in front of punctuation. -/
theorem word {name : String} {p : Token} {ts : List Token} (hname : isIdentifier name = true)
    (hp : p.isAlphanumeric = false) (h : Legible (p :: ts)) :
    Legible (.word name :: p :: ts) := by
  refine h.cons (Token.sound_word hname) rfl fun u hu => ?_
  obtain rfl : p = u := by simpa using hu
  simp [mayPrecede, hp]

theorem last {name : String} (hname : isIdentifier name = true) : Legible [.word name] :=
  nil.cons (Token.sound_word hname) rfl fun _ hu => by cases hu; rfl

theorem number {spelling : String} (hsound : (Token.number spelling).Sound)
    (hread : (Number.read? spelling).isSome = true) : Legible [.number spelling] := by
  have hfault : (Token.number spelling).fault? = none := by
    have hnone : (Number.read? spelling).isNone = false := by simp [← Option.not_isSome, hread]
    simp [Token.fault?, hnone]
  exact nil.cons hsound hfault fun _ hu => by cases hu; rfl

theorem dot {name : String} {ts : List Token} (h : Legible (.word name :: ts)) :
    Legible (.dot :: .word name :: ts) := by
  refine h.cons Token.sound_dot rfl fun u hu => ?_
  obtain rfl : Token.word name = u := by simpa using hu
  rfl

theorem string {s : String} {t : Token} {ts : List Token} (hs : t.IsString s) (h : Legible ts) :
    Legible (t :: ts) := by
  have hstring : t.string? = some s := hs.string?_eq
  have hsound : t.Sound := hs.sound
  obtain ⟨single, body, rfl, -⟩ := hs
  have hfault : (Token.quoted single body).fault? = none := by simp [Token.fault?, hstring]
  exact h.cons hsound hfault fun _ _ => rfl

/-- Pieces with commas between them, up to the closing bracket. -/
theorem commaSeparated {pieces : List (List Token)} (h : ∀ piece ∈ pieces, Legible piece)
    (trailing : Bool) (b : Bracket) :
    Legible (commaSeparated trailing pieces ++ [.closing b]) := by
  match pieces with
  | [] => exact closing b
  | [piece] =>
    have hpiece : Legible piece := h piece List.mem_cons_self
    cases trailing with
    | false => simpa [TableQuery.commaSeparated] using hpiece.append rfl (closing b)
    | true => simpa [TableQuery.commaSeparated] using hpiece.append rfl (closing b).comma
  | piece :: next :: rest =>
    obtain ⟨hpiece, hrest⟩ := List.forall_mem_cons.mp h
    have hfollowing := commaSeparated hrest trailing b
    simpa [TableQuery.commaSeparated] using hpiece.append rfl hfollowing.comma

theorem bracketed {pieces : List (List Token)} (h : ∀ piece ∈ pieces, Legible piece)
    (trailing : Bool) (b : Bracket) :
    Legible (.opening b :: TableQuery.commaSeparated trailing pieces ++ [.closing b]) :=
  (commaSeparated h trailing b).opening b

end Legible

namespace Term.Reading

variable {reading : Reading}

theorem run?_nil : reading.run? [] = some reading := rfl

theorem run?_cons (token : Token) (ts : List Token) :
    reading.run? (token :: ts) = (reading.step? token).bind (·.run? ts) := rfl

theorem run?_append (front back : List Token) :
    reading.run? (front ++ back) = (reading.run? front).bind (·.run? back) :=
  List.foldlM_append

/-- Pieces with commas between them: if each piece takes the reader from where one may begin to
where one has ended, the whole list takes it from the opening to the closing bracket. -/
theorem run?_commaSeparated {α : Type} (begun : List α → Reading) (ended : α → List α → Reading)
    (closed : List α → Reading) (close : Token)
    (hcomma : ∀ x done, (ended x done).step? .comma = some (begun (x :: done)))
    (hclose : ∀ x done, (ended x done).step? close = some (closed (x :: done)))
    (hend : ∀ done, (begun done).step? close = some (closed done))
    {xs : List α} {pieces : List (List Token)}
    (h : List.Forall₂ (fun x piece => ∀ done, (begun done).run? piece = some (ended x done))
      xs pieces) (trailing : Bool) (done : List α) :
    (begun done).run? (commaSeparated trailing pieces ++ [close]) =
      some (closed (xs.reverse ++ done)) := by
  -- on the pieces; what was read before them grows by one
  induction h generalizing done with
  | nil => simp [commaSeparated, run?_cons, run?_nil, hend]
  | @cons x piece rest others hpiece hothers ih =>
    -- only behind the last piece a comma may be missing
    cases hothers with
    | nil =>
      cases trailing with
      | false => simp [commaSeparated, run?_append, run?_cons, run?_nil, hpiece, hclose]
      | true => simp [commaSeparated, run?_append, run?_cons, run?_nil, hpiece, hcomma, hend]
    | @cons y next ys nexts _ _ =>
      have hsplit : commaSeparated trailing (piece :: next :: nexts) ++ [close] =
          piece ++ .comma :: (commaSeparated trailing (next :: nexts) ++ [close]) := by
        simp [commaSeparated]
      calc (begun done).run? (commaSeparated trailing (piece :: next :: nexts) ++ [close])
          = (begun (x :: done)).run? (commaSeparated trailing (next :: nexts) ++ [close]) := by
            rw [hsplit, run?_append, hpiece, Option.bind_some, run?_cons, hcomma,
              Option.bind_some]
        _ = some (closed ((y :: ys).reverse ++ x :: done)) := ih (x :: done)
        _ = some (closed ((x :: y :: ys).reverse ++ done)) := by simp

end Term.Reading

namespace Term

def ReadFrom (t : Term) (ts : List Token) : Prop :=
  ∀ stack, (Reading.term stack).run? ts = some (.done t stack)

namespace ReadFrom

open Reading (run?_nil run?_cons run?_append run?_commaSeparated)

variable {ts : List Token} {t : Term} {pieces : List (List Token)}

/-- No term begins with the bracket that may stand in its place. -/
theorem termOrEnd (h : ReadFrom t ts) (stack : List Open) :
    (Reading.termOrEnd stack).run? ts = some (.done t stack) := by
  cases ts with
  | nil => cases h stack
  | cons token rest =>
    -- a closing bracket begins no term
    have hbegin : Reading.begin? stack token ≠ none := by
      intro hnone
      have hrun := h stack
      rw [run?_cons] at hrun
      simp [Reading.step?, hnone] at hrun
    have hstep : (Reading.termOrEnd stack).step? token = Reading.begin? stack token := by
      unfold Reading.step?
      split <;> simp_all [Reading.begin?]
    rw [run?_cons, hstep]
    exact h stack

theorem array {items : List Term} (h : List.Forall₂ ReadFrom items pieces)
    (trailing : Bool) :
    ReadFrom (ofItems items)
      (.opening .square :: commaSeparated trailing pieces ++ [.closing .square]) := by
  intro stack
  have hpieces := h.imp fun t piece ht done => ht.termOrEnd (.items done :: stack)
  have hrun := run?_commaSeparated (fun done => .termOrEnd (.items done :: stack))
    (fun t done => .done t (.items done :: stack)) (fun done => .done (ofItems done.reverse) stack)
    (.closing .square) (fun _ _ => rfl) (fun _ _ => rfl) (fun _ => rfl) hpieces trailing []
  simpa [run?_cons, Reading.step?, Reading.begin?] using hrun

/-- A receiver and what stands in brackets behind it. -/
theorem arguments {args : List Term} (h : List.Forall₂ ReadFrom args pieces)
    (trailing : Bool) (action : String) (receiver : Term) (stack : List Open) :
    (Reading.termOrEnd (.call action receiver [] :: stack)).run?
      (commaSeparated trailing pieces ++ [.closing .round]) =
      some (.done (call action receiver args) stack) := by
  have hpieces := h.imp fun t piece ht done => ht.termOrEnd (.call action receiver done :: stack)
  have hrun := run?_commaSeparated (fun done => .termOrEnd (.call action receiver done :: stack))
    (fun t done => .done t (.call action receiver done :: stack))
    (fun done => .done (call action receiver done.reverse) stack) (.closing .round)
    (fun _ _ => rfl) (fun _ _ => rfl) (fun _ => rfl) hpieces trailing []
  simpa using hrun

theorem object {fields : List (String × Term)}
    (h : List.Forall₂ (InField ReadFrom) fields pieces) (trailing : Bool) :
    ReadFrom (ofFields fields)
      (.opening .curly :: commaSeparated trailing pieces ++ [.closing .curly]) := by
  intro stack
  have hpieces : List.Forall₂ (fun (field : String × Term) piece => ∀ done,
      (Reading.keyOrEnd done stack).run? piece =
        some (.done field.2 (.fields done field.1 :: stack))) fields pieces := by
    refine h.imp fun field piece hpiece done => ?_
    obtain ⟨token, first, hkey, hfirst, rfl⟩ := hpiece
    have hstring : token.string? = some field.1 := hkey.string?_eq
    obtain ⟨single, body, rfl, -⟩ := hkey
    rw [run?_cons]
    simp [Reading.step?, hstring, run?_cons, hfirst (.fields done field.1 :: stack)]
  have hrun := run?_commaSeparated (fun done => .keyOrEnd done stack)
    (fun field done => .done field.2 (.fields done field.1 :: stack))
    (fun done => .done (ofFields done.reverse) stack) (.closing .curly)
    (fun _ _ => rfl) (fun _ _ => rfl) (fun _ => rfl) hpieces trailing []
  simpa [run?_cons, Reading.step?, Reading.begin?] using hrun

theorem expr (h : ReadFrom t ts) :
    ReadFrom t (.word "r" :: .dot :: .word "expr" :: .opening .round :: ts ++
      [.closing .round]) := by
  intro stack
  have hgroup : (Reading.term (.group :: stack)).run? (ts ++ [.closing .round]) =
      some (.done t stack) := by
    rw [run?_append, h (.group :: stack)]
    rfl
  exact hgroup

theorem method {receiver : Term} {args : List Term} (hreceiver : ReadFrom receiver ts)
    (h : List.Forall₂ ReadFrom args pieces) (trailing : Bool) (action : String) :
    ReadFrom (call action receiver args) (ts ++ .dot :: .word action :: .opening .round ::
      commaSeparated trailing pieces ++ [.closing .round]) := by
  intro stack
  rw [List.append_assoc, run?_append, hreceiver stack]
  exact arguments h trailing action receiver stack

theorem bracket {receiver : Term} {args : List Term} (hreceiver : ReadFrom receiver ts)
    (h : List.Forall₂ ReadFrom args pieces) (trailing : Bool) :
    ReadFrom (call "bracket" receiver args) (ts ++ .opening .round ::
      commaSeparated trailing pieces ++ [.closing .round]) := by
  intro stack
  rw [List.append_assoc, run?_append, hreceiver stack]
  exact arguments h trailing "bracket" receiver stack

end ReadFrom

structure Written (t : Term) (ts : List Token) : Prop where
  legible : Legible ts
  reads : ReadFrom t ts

namespace Written

variable {t receiver : Term} {ts : List Token} {pieces : List (List Token)}

theorem legible_pieces {α : Type} {R : α → List Token → Prop} {xs : List α}
    (h : List.Forall₂ R xs pieces) (hR : ∀ x piece, R x piece → Legible piece) :
    ∀ piece ∈ pieces, Legible piece := by
  induction h with
  | nil => simp
  | cons hpiece _ ih => exact List.forall_mem_cons.mpr ⟨hR _ _ hpiece, ih⟩

theorem bracketed {items : List Term} (h : List.Forall₂ Written items pieces) (trailing : Bool)
    (b : Bracket) : Legible (.opening b :: commaSeparated trailing pieces ++ [.closing b]) :=
  .bracketed (legible_pieces h fun _ _ hpiece => hpiece.legible) trailing b

theorem array {items : List Term} (h : List.Forall₂ Written items pieces) (trailing : Bool) :
    Written (ofItems items)
      (.opening .square :: commaSeparated trailing pieces ++ [.closing .square]) where
  legible := bracketed h trailing .square
  reads := .array (h.imp fun _ _ hpiece => hpiece.reads) trailing

theorem object {fields : List (String × Term)} (h : List.Forall₂ (InField Written) fields pieces)
    (trailing : Bool) :
    Written (ofFields fields)
      (.opening .curly :: commaSeparated trailing pieces ++ [.closing .curly]) where
  legible := by
    refine .bracketed (legible_pieces h fun field piece hpiece => ?_) trailing .curly
    obtain ⟨token, first, hkey, hfirst, rfl⟩ := hpiece
    exact hfirst.legible.colon.string hkey
  reads := by
    refine .object (h.imp fun field piece hpiece => ?_) trailing
    obtain ⟨token, first, hkey, hfirst, rfl⟩ := hpiece
    exact ⟨token, first, hkey, hfirst.reads, rfl⟩

theorem method {args : List Term} {action : String} (hreceiver : Written receiver ts)
    (h : List.Forall₂ Written args pieces) (trailing : Bool)
    (haction : isIdentifier action = true) :
    Written (call action receiver args) (ts ++ .dot :: .word action :: .opening .round ::
      commaSeparated trailing pieces ++ [.closing .round]) where
  legible := by
    have harguments := bracketed h trailing .round
    rw [List.append_assoc]
    exact hreceiver.legible.append rfl (harguments.word haction rfl).dot
  reads := hreceiver.reads.method (h.imp fun _ _ hpiece => hpiece.reads) trailing action

theorem bracket {args : List Term} (hreceiver : Written receiver ts)
    (h : List.Forall₂ Written args pieces) (trailing : Bool) :
    Written (call "bracket" receiver args) (ts ++ .opening .round ::
      commaSeparated trailing pieces ++ [.closing .round]) where
  legible := by
    have harguments := bracketed h trailing .round
    rw [List.append_assoc]
    exact hreceiver.legible.append rfl harguments
  reads := hreceiver.reads.bracket (h.imp fun _ _ hpiece => hpiece.reads) trailing

theorem expr (h : Written t ts) :
    Written t (.word "r" :: .dot :: .word "expr" :: .opening .round :: ts ++
      [.closing .round]) where
  legible := by
    have hgroup := (h.legible.append rfl (.closing .round)).opening .round
    exact (hgroup.word (by decide) rfl).dot.word (by decide) rfl
  reads := h.reads.expr

theorem table {name : String} {token : Token} (h : token.IsString name) :
    Written (table name)
      [.word "r", .dot, .word "table", .opening .round, token, .closing .round] where
  legible := by
    have hname := ((Legible.closing .round).string h).opening .round
    exact (hname.word (by decide) rfl).dot.word (by decide) rfl
  reads stack := by
    have hstring : token.string? = some name := h.string?_eq
    obtain ⟨single, body, rfl, -⟩ := h
    simp [Reading.run?_cons, Reading.run?_nil, Reading.step?, Reading.begin?, hstring]

theorem row : Written row [.word "r", .dot, .word "row"] where
  legible := (Legible.last (by decide)).dot.word (by decide) rfl
  reads _ := rfl

end Written

end Term

end TableQuery
