import TableQuery.Proofs.Session.Newest

namespace TableQuery

namespace Text

theorem pieces_eq_splitOnP (sep : Char → Bool) (cs : List Char) :
    pieces sep cs = cs.splitOnP sep := by
  induction cs with
  | nil => rfl
  | cons c cs ih =>
    rw [pieces, List.splitOnP_cons_eq_if_modifyHead, ih]
    split
    · rfl
    · cases hpieces : cs.splitOnP sep with
      | nil => exact absurd hpieces (List.splitOnP_ne_nil sep cs)
      | cons first rest => rfl

theorem pieces_joinLines {items : List String} (hitems : items ≠ [])
    (h : ∀ item ∈ items, '\n' ∉ item.toList) :
    pieces (· == '\n') (joinLines items).toList = items.map String.toList := by
  rw [pieces_eq_splitOnP, joinLines, String.toList_intercalate]
  refine List.splitOn_intercalate '\n' ?_ (by simpa using hitems)
  simpa using h

/-- The lines of a text in which each line is ended. A carriage return in front of the end is no
part of the line. -/
theorem lines_ended {items : List String} (hitems : items ≠ [])
    (h : ∀ item ∈ items, '\n' ∉ item.toList) :
    lines (joinLines items ++ "\n") =
      items.map fun item => String.ofList (dropReturn item.toList) := by
  -- the last line feed stands before one more item, which is empty
  have hended : joinLines items ++ "\n" = joinLines (items ++ [""]) := by
    rw [joinLines, joinLines, String.intercalate_append_of_ne_nil hitems (by simp),
      String.intercalate_singleton, String.append_empty]
  have hpieces : pieces (· == '\n') (joinLines items ++ "\n").toList =
      items.map String.toList ++ [[]] := by
    rw [hended, pieces_joinLines (by simp), List.map_append]
    · rfl
    · intro item hitem
      rcases List.mem_append.mp hitem with hmem | hempty
      · exact h item hmem
      · simp [List.mem_singleton.mp hempty]
  rw [lines, hpieces]
  simp

/-- Between separators there is none. -/
theorem not_sep_of_mem_pieces {sep : Char → Bool} {cs : List Char} :
    ∀ piece ∈ pieces sep cs, ∀ c ∈ piece, sep c = false := by
  induction cs with
  | nil => simp [pieces]
  | cons c cs ih =>
    rw [pieces]
    split
    · simpa using ih
    · next hc =>
      split
      · simpa using hc
      · next first rest hpieces =>
        rw [hpieces, List.forall_mem_cons] at ih
        simp only [List.forall_mem_cons]
        exact ⟨⟨by simpa using hc, ih.1⟩, ih.2⟩

theorem mem_of_mem_dropReturn {line : List Char} {c : Char} (h : c ∈ dropReturn line) :
    c ∈ line := by
  unfold dropReturn at h
  split at h
  · exact List.mem_of_mem_dropLast h
  · exact h

/-- No line of a text has a line feed in it. -/
theorem newline_not_mem_of_mem_lines {text line : String} (h : line ∈ lines text) :
    '\n' ∉ line.toList := by
  have hpiece {piece : List Char} (hmem : piece ∈ pieces (· == '\n') text.toList) :
      '\n' ∉ piece := by
    intro hc
    have hsep := not_sep_of_mem_pieces piece hmem '\n' hc
    cases hsep
  have hended : ∀ ended ∈ (pieces (· == '\n') text.toList).dropLast.map dropReturn,
      '\n' ∉ ended := by
    intro ended hmem hc
    obtain ⟨piece, hin, rfl⟩ := List.mem_map.mp hmem
    exact hpiece (List.mem_of_mem_dropLast hin) (mem_of_mem_dropReturn hc)
  obtain ⟨chars, hmem, rfl⟩ := List.mem_map.mp h
  rw [String.toList_ofList]
  split at hmem
  · exact hended chars hmem
  · next hlast =>
    rcases List.mem_append.mp hmem with hin | hin
    · exact hended chars hin
    · -- the last piece is not ended
      rw [List.mem_singleton.mp hin]
      cases hpieces : (pieces (· == '\n') text.toList).getLast? with
      | none => simp
      | some piece => exact hpiece (List.mem_of_getLast? hpieces)

theorem mem_of_mem_trim {text : String} {c : Char} (h : c ∈ (trim text).toList) :
    c ∈ text.toList := by
  obtain ⟨before, after, htext, -, -⟩ := exists_toList_eq_trim text
  rw [htext]
  simp [h]

/-- A trimmed text does not end in white space. -/
theorem isWhiteSpace_getLast_trim {text : String} {c : Char}
    (h : (trim text).toList.getLast? = some c) : isWhiteSpace c = false := by
  rw [trim, String.toList_ofList, trimChars, List.getLast?_reverse] at h
  have hhead := List.head?_dropWhile_not isWhiteSpace (text.toList.dropWhile isWhiteSpace).reverse
  rwa [h] at hhead

end Text

namespace History

/-- A command that a history file gives back as it is: it is one line, it is not blank, and no
carriage return at its end can be taken for a part of the line end. -/
structure Storable (command : String) : Prop where
  oneLine : '\n' ∉ command.toList
  notBlank : Text.isBlank command = false
  notReturned : command.toList.getLast? ≠ some '\r'

/-- What trimming leaves of a line. -/
theorem storable_trim {line : String} (hline : '\n' ∉ line.toList) (hne : Text.trim line ≠ "") :
    Storable (Text.trim line) where
  oneLine h := hline (Text.mem_of_mem_trim h)
  notBlank := by
    -- the last character is there and is no white space
    have hchars : (Text.trim line).toList ≠ [] := by simpa using hne
    have hlast := List.getLast?_eq_some_getLast hchars
    have hspace := Text.isWhiteSpace_getLast_trim hlast
    refine List.all_eq_false.mpr ⟨_, List.getLast_mem hchars, ?_⟩
    simp [hspace]
  notReturned h := by
    have hspace := Text.isWhiteSpace_getLast_trim h
    cases hspace

variable {h : History}

/-- Whatever is forgotten, the commands left are old ones and the new one. -/
theorem storable_add (hh : ∀ command ∈ h.commands, Storable command) {line : String}
    (hline : '\n' ∉ line.toList) : ∀ command ∈ (h.add line).commands, Storable command := by
  intro command hmem
  unfold add at hmem
  dsimp only at hmem
  split at hmem
  · exact hh command hmem
  · next hnew =>
    rcases List.mem_append.mp (List.mem_of_mem_drop hmem) with hold | hlast
    · exact hh command hold
    · rw [List.mem_singleton.mp hlast]
      refine storable_trim hline fun hempty => hnew ?_
      simp [hempty]

theorem storable_foldl_add {lines : List String} (hlines : ∀ line ∈ lines, '\n' ∉ line.toList) :
    ∀ {h : History}, (∀ command ∈ h.commands, Storable command) →
      ∀ command ∈ (lines.foldl (fun h line => h.add line) h).commands, Storable command := by
  induction lines with
  | nil => exact fun hh => hh
  | cons line rest ih =>
    intro h hh
    obtain ⟨hline, hrest⟩ := List.forall_mem_cons.mp hlines
    exact ih hrest (storable_add hh hline)

/-- The lines of a saved history that are not blank are its commands. -/
theorem linesOfFile_fileText (hh : ∀ command ∈ h.commands, Storable command) :
    linesOfFile h.fileText = h.commands := by
  unfold linesOfFile fileText
  by_cases hnone : h.commands = []
  · -- the file of an empty history has one line, which is blank
    rw [hnone]
    decide
  · have hlines : Text.lines (Text.joinLines h.commands ++ "\n") = h.commands := by
      rw [Text.lines_ended hnone fun command hmem => (hh command hmem).oneLine]
      have hkept : ∀ command ∈ h.commands,
          String.ofList (Text.dropReturn command.toList) = command := by
        intro command hmem
        rw [Text.dropReturn, if_neg (hh command hmem).notReturned, String.ofList_toList]
      rw [List.map_congr_left hkept, List.map_id']
    rw [hlines, List.filter_eq_self]
    intro command hmem
    rw [(hh command hmem).notBlank]
    rfl

/-- A history that any lines have filled comes back from the file that it is saved in: whatever
history loads the file has the last of its commands, as many as there is room for, in order, and
what it had before is gone. The lines are lines of their own, as those of an input are. -/
theorem load_saved (size : Nat) {lines : List String} (hlines : ∀ line ∈ lines, '\n' ∉ line.toList)
    (other : History) :
    let saved := lines.foldl (fun h line => h.add line) (empty size)
    other.load saved.fileText = ⟨other.maxSize, saved.commands.rtake other.maxSize⟩ ∧
      ∀ input, ∀ line ∈ Text.lines input, '\n' ∉ line.toList := by
  intro saved
  have hstorable : ∀ command ∈ saved.commands, Storable command :=
    storable_foldl_add hlines (by simp [empty])
  refine ⟨?_, fun input line => Text.newline_not_mem_of_mem_lines⟩
  change History.mk other.maxSize (newest other.maxSize (linesOfFile saved.fileText)) = _
  rw [linesOfFile_fileText hstorable]
  rfl

/-- Foreign white space, carriage returns in a command and at its end, a blank line and a
repetition, loaded into a history with less room that has a command already. -/
theorem load_saved_returns :
    let lines := ["\u3000é ", "b\rc\r", " b\rc", " \t", ".exit"]
    let saved := lines.foldl (fun h line => h.add line) (empty 10)
    (∀ line ∈ lines, '\n' ∉ line.toList) ∧ saved.commands = ["é", "b\rc", ".exit"] ∧
      (History.mk 2 ["old"]).load saved.fileText = ⟨2, ["b\rc", ".exit"]⟩ := by
  intro lines saved
  have hlines : ∀ line ∈ lines, '\n' ∉ line.toList := by decide
  have hsaved : saved.commands = ["é", "b\rc", ".exit"] := by decide +kernel
  refine ⟨hlines, hsaved, ?_⟩
  have hload := (load_saved 10 hlines ⟨2, ["old"]⟩).1
  have hlast : saved.commands.rtake 2 = ["b\rc", ".exit"] := by
    rw [hsaved]
    rfl
  exact hload.trans (congrArg (History.mk 2) hlast)

end History

end TableQuery
