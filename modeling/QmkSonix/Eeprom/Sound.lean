import QmkSonix.Eeprom.Encoding

/-! Soundness of a flash image: every write in the log lies over a programmed
compacted word, and the log is erased behind its last entry. The lemmas say what
appending an entry and programming an erased compacted word do to the contents. -/

namespace QmkSonix.Eeprom

open QmkSonix.Lib

structure Sound (cfg : Config) (cells : Cells) : Prop where
  backed : ∀ write ∈ logWrites cfg cells,
    write.1 < cfg.densityBytes ∧ cells (write.1 / 2) ≠ feeEmptyWord
  blank : ∀ cell, logEnd cfg cells ≤ cell → cell < cfg.logLast → cells cell = feeEmptyWord

section Log

variable {cfg : Config} {cells other : Cells}

theorem logEnd_stop (early : logEnd cfg cells < cfg.logLast) :
    cells (logEnd cfg cells) = feeEmptyWord := by
  have order := logBase_le_logLast cfg
  exact scanLog_stop cfg cells (cfg.logLast - cfg.logBase) cfg.logBase
    (by unfold logEnd at early; omega)

/-- The log of an image that keeps the old log begins with the old writes. -/
theorem log_extend (cfg : Config) (cells other : Cells)
    (agree : ∀ cell, cfg.logBase ≤ cell → cell < logEnd cfg cells → other cell = cells cell) :
    logWrites cfg other = logWrites cfg cells ++
        (scanLog cfg other (cfg.logLast - logEnd cfg cells) (logEnd cfg cells)).1 ∧
      logEnd cfg other =
        (scanLog cfg other (cfg.logLast - logEnd cfg cells) (logEnd cfg cells)).2 := by
  have order := logBase_le_logLast cfg
  have span : cfg.logBase + (cfg.logLast - cfg.logBase) = cfg.logLast := by omega
  have extended := scanLog_extend cfg cells (cfg.logLast - cfg.logBase) cfg.logBase agree
  rw [span] at extended
  constructor
  · rw [logWrites, extended]
    rfl
  · rw [logEnd, extended]
    rfl

/-- Images that agree on the log area hold the same log. -/
theorem log_congr (agree : ∀ cell, cfg.logBase ≤ cell → cell < cfg.logLast →
      other cell = cells cell) :
    logWrites cfg other = logWrites cfg cells ∧ logEnd cfg other = logEnd cfg cells := by
  have bounds := logEnd_bounds cfg cells
  obtain ⟨writes, stop⟩ := log_extend cfg cells other (fun cell above below =>
    agree cell above (by omega))
  rcases Nat.lt_or_ge (logEnd cfg cells) cfg.logLast with early | full
  · have blank : other (logEnd cfg cells) = feeEmptyWord := by
      rw [agree _ bounds.1 early, logEnd_stop early]
    simpa [scanLog_blank blank] using And.intro writes stop
  · have done : cfg.logLast - logEnd cfg cells = 0 := by omega
    simpa [done, scanLog] using And.intro writes stop

theorem log_of_blank (blank : ∀ cell, cfg.logBase ≤ cell → cell < cfg.logLast →
      cells cell = feeEmptyWord) :
    logWrites cfg cells = [] ∧ logEnd cfg cells = cfg.logBase := by
  have order := logBase_le_logLast cfg
  unfold logWrites logEnd
  rcases Nat.lt_or_ge cfg.logBase cfg.logLast with room | none
  · rw [scanLog_blank (blank _ (Nat.le_refl _) room)]
    exact ⟨rfl, rfl⟩
  · have empty : cfg.logLast - cfg.logBase = 0 := by omega
    rw [empty]
    exact ⟨rfl, rfl⟩

theorem sound_of_blank (blank : ∀ cell, cfg.logBase ≤ cell → cell < cfg.logLast →
      cells cell = feeEmptyWord) : Sound cfg cells := by
  obtain ⟨writes, stop⟩ := log_of_blank blank
  exact ⟨by simp [writes], fun cell above => blank cell (by omega)⟩

theorem contents_of_blank (blank : ∀ cell, cfg.logBase ≤ cell → cell < cfg.logLast →
      cells cell = feeEmptyWord) : contents cfg cells = compactedByte cells := by
  simp [contents, (log_of_blank blank).1]

theorem blank_stop (blank : other cell = feeEmptyWord ∨ cfg.logLast ≤ cell) :
    scanLog cfg other (cfg.logLast - cell) cell = ([], cell) := by
  rcases blank with empty | full
  · exact scanLog_blank empty _
  · have done : cfg.logLast - cell = 0 := by omega
    rw [done, scanLog]

/-- A one-cell entry programmed at the end of the log. -/
theorem log_append_single
    (blank : ∀ cell, logEnd cfg cells ≤ cell → cell < cfg.logLast → cells cell = feeEmptyWord)
    (room : logEnd cfg cells < cfg.logLast)
    (used : header ≠ feeEmptyWord) (single : entryWide header = false) :
    logWrites cfg (Function.update cells (logEnd cfg cells) header) =
        logWrites cfg cells ++ entryWrites cfg header feeEmptyWord ∧
      logEnd cfg (Function.update cells (logEnd cfg cells) header) = logEnd cfg cells + 1 := by
  obtain ⟨writes, stop⟩ := log_extend cfg cells
    (Function.update cells (logEnd cfg cells) header)
    (fun cell _ below => Function.update_of_ne (by omega) _ _)
  have behind : Function.update cells (logEnd cfg cells) header (logEnd cfg cells + 1) =
      feeEmptyWord ∨ cfg.logLast ≤ logEnd cfg cells + 1 := by
    rcases Nat.lt_or_ge (logEnd cfg cells + 1) cfg.logLast with early | full
    · left
      rw [Function.update_of_ne (by omega)]
      exact blank _ (by omega) early
    · exact .inr full
  have count : cfg.logLast - logEnd cfg cells = cfg.logLast - (logEnd cfg cells + 1) + 1 := by
    omega
  rw [count, scanLog_single (by simpa using used) (by simpa using single), blank_stop behind]
    at writes stop
  rw [Function.update_self] at writes
  refine ⟨?_, stop⟩
  rw [writes, List.append_nil, entryWrites_single single feeEmptyWord]

/-- A word-next entry whose two cells lie at the end of the log. -/
theorem log_append_wide
    (blank : ∀ cell, logEnd cfg cells ≤ cell → cell < cfg.logLast → cells cell = feeEmptyWord)
    (room : logEnd cfg cells + 1 < cfg.logLast)
    (used : header ≠ feeEmptyWord) (wide : entryWide header = true)
    (header_at : other (logEnd cfg cells) = header)
    (elsewhere : ∀ cell, cell ≠ logEnd cfg cells → cell ≠ logEnd cfg cells + 1 →
      other cell = cells cell) :
    logWrites cfg other =
        logWrites cfg cells ++ entryWrites cfg header (other (logEnd cfg cells + 1)) ∧
      logEnd cfg other = logEnd cfg cells + 2 := by
  obtain ⟨writes, stop⟩ := log_extend cfg cells other
    (fun cell _ below => elsewhere cell (by omega) (by omega))
  have behind : other (logEnd cfg cells + 2) = feeEmptyWord ∨
      cfg.logLast ≤ logEnd cfg cells + 2 := by
    rcases Nat.lt_or_ge (logEnd cfg cells + 2) cfg.logLast with early | full
    · left
      rw [elsewhere _ (by omega) (by omega)]
      exact blank _ (by omega) early
    · exact .inr full
  have count : cfg.logLast - logEnd cfg cells = cfg.logLast - (logEnd cfg cells + 2) + 2 := by
    omega
  rw [count, scanLog_wide (by rwa [header_at]) (by rwa [header_at]), blank_stop behind, header_at]
    at writes stop
  exact ⟨by simpa using writes, stop⟩

end Log

section Contents

variable {cfg : Config} {cells other : Cells}

theorem half_lt_logBase (below : address < cfg.densityBytes) : address / 2 < cfg.logBase := by
  have even := cfg.densityEven
  unfold Config.logBase
  omega

theorem compactedByte_congr (same : other (address / 2) = cells (address / 2)) :
    compactedByte other address = compactedByte cells address := by
  simp [compactedByte, same]

/-- New log writes come over the contents they are appended to. -/
theorem contents_append (writes : logWrites cfg other = logWrites cfg cells ++ new)
    (compacted : ∀ cell < cfg.logBase, other cell = cells cell)
    (below : address < cfg.densityBytes) :
    contents cfg other address = overlay new (contents cfg cells) address := by
  rw [contents, writes, overlay_append]
  apply overlay_congr
  apply overlay_congr
  exact compactedByte_congr (compacted _ (half_lt_logBase below))

theorem sound_append (sound : Sound cfg cells)
    (writes : logWrites cfg other = logWrites cfg cells ++ new)
    (compacted : ∀ cell < cfg.logBase, other cell = cells cell)
    (backed : ∀ write ∈ new, write.1 < cfg.densityBytes ∧ cells (write.1 / 2) ≠ feeEmptyWord)
    (blank : ∀ cell, logEnd cfg other ≤ cell → cell < cfg.logLast → other cell = feeEmptyWord) :
    Sound cfg other := by
  refine ⟨?_, blank⟩
  intro write member
  rw [writes] at member
  have kept : write.1 < cfg.densityBytes ∧ cells (write.1 / 2) ≠ feeEmptyWord := by
    rcases List.mem_append.mp member with old | added
    · exact sound.backed write old
    · exact backed write added
  exact ⟨kept.1, by rw [compacted _ (half_lt_logBase kept.1)]; exact kept.2⟩

section Direct

variable (sound : Sound cfg cells) (compacted : cell < cfg.logBase)
  (erased : cells cell = feeEmptyWord)

include compacted in
theorem log_direct (cells : Cells) (value : HalfWord) :
    logWrites cfg (Function.update cells cell value) = logWrites cfg cells ∧
      logEnd cfg (Function.update cells cell value) = logEnd cfg cells :=
  log_congr (fun _ above _ => Function.update_of_ne (by omega) _ _)

include sound compacted in
theorem sound_direct (used : value ≠ feeEmptyWord) :
    Sound cfg (Function.update cells cell value) := by
  have bounds := logEnd_bounds cfg cells
  obtain ⟨writes, stop⟩ := log_direct compacted cells value
  constructor
  · intro write member
    rw [writes] at member
    obtain ⟨inside, programmed⟩ := sound.backed write member
    refine ⟨inside, ?_⟩
    by_cases hit : write.1 / 2 = cell
    · simpa [hit] using used
    · rwa [Function.update_of_ne hit]
  · intro behind above below
    rw [stop] at above
    rw [Function.update_of_ne (by omega)]
    exact sound.blank behind above below

include sound erased in
/-- No log write lies over an erased compacted word. -/
theorem unlogged (hit : address / 2 = cell) :
    ∀ write ∈ logWrites cfg cells, write.1 ≠ address := by
  rintro write member rfl
  exact (sound.backed write member).2 (hit ▸ erased)

include sound erased in
theorem contents_erased (hit : address / 2 = cell) : contents cfg cells address = 0 := by
  rw [contents, overlay_of_unwritten (unlogged sound erased hit)]
  have zero : ~~~feeEmptyWord = 0 := by decide
  simp [compactedByte, hit, erased, zero]

include sound compacted erased in
theorem contents_direct (value : HalfWord) (address : Nat) :
    contents cfg (Function.update cells cell value) address =
      if address / 2 = cell then compactedByte (Function.update cells cell value) address
      else contents cfg cells address := by
  rw [contents, (log_direct compacted cells value).1]
  split
  · exact overlay_of_unwritten (unlogged sound erased ‹_›) _
  · apply overlay_congr
    exact compactedByte_congr (Function.update_of_ne ‹_› _ _)

end Direct

end Contents

end QmkSonix.Eeprom
