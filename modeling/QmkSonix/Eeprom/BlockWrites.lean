import QmkSonix.Eeprom.Block
import QmkSonix.Eeprom.ByteStatus

/-! Writing a block on a flash without faults: as long as no entry of the log lies over an
erased word of the block, the flash stands for the cache after the words of
`eeprom_write_block` and after the single bytes. -/

namespace QmkSonix.Eeprom

open QmkSonix.Lib

/-- Every operation of the flash runs. -/
def Flash.FaultFree (flash : Flash) : Prop := ∀ entry ∈ flash.faults, entry = none

/-- The log holds no entry for the byte when its compacted word is erased. -/
def Unlogged (cfg : Config) (cells : Cells) (address : Nat) : Prop :=
  cells (address / 2) = feeEmptyWord → lastWrite (logWrites cfg cells) address = none

/-- The flash stands for the cache, and the bytes from `first` up to `last` may be written
wherever they go. -/
structure Synced (cfg : Config) (s : Emulation) (first last : Nat) : Prop where
  cached : ∀ address < cfg.densityBytes, contents cfg s.flash.cells address = s.dataBuf address
  intact : Intact cfg s
  faultFree : s.flash.FaultFree
  unlogged : ∀ address < cfg.densityBytes, first ≤ address → address < last →
    Unlogged cfg s.flash.cells address

/-- What an entry writer does on a flash without faults: it stores the bytes written from
the cache, and it logs the bytes logged only. -/
structure Enters (cfg : Config) (s after : Emulation) (written logged : Nat → Prop) : Prop where
  dataBuf : after.dataBuf = s.dataBuf
  faults : after.flash.faults ⊆ s.flash.faults
  intact : Intact cfg after
  stored : ∀ address < cfg.densityBytes,
    written address ∨ contents cfg s.flash.cells address = s.dataBuf address →
    contents cfg after.flash.cells address = s.dataBuf address
  unlogged : ∀ address < cfg.densityBytes, ¬logged address →
    Unlogged cfg s.flash.cells address → Unlogged cfg after.flash.cells address

section Entries

variable {cfg : Config} {s middle after : Emulation} {address : HalfWord}

theorem Flash.FaultFree.works {flash : Flash} (faultFree : flash.FaultFree) (count : Nat) :
    flash.Works count :=
  fun entry member => faultFree entry (List.mem_of_mem_take member)

theorem Flash.FaultFree.fallible {flash : Flash} (faultFree : flash.FaultFree) :
    flash.Fallible := by
  intro status member
  cases faultFree _ member

theorem Enters.refl (intact : Intact cfg s) : Enters cfg s s (fun _ => False) (fun _ => False) :=
  ⟨rfl, fun _ => id, intact, fun _ _ held => held.resolve_left id, fun _ _ _ => id⟩

theorem Enters.trans {written logged later laterLogged : Nat → Prop}
    (first : Enters cfg s middle written logged)
    (second : Enters cfg middle after later laterLogged) :
    Enters cfg s after (fun address => written address ∨ later address)
      (fun address => logged address ∨ laterLogged address) := by
  refine ⟨second.dataBuf.trans first.dataBuf, List.Subset.trans second.faults first.faults, second.intact,
    fun address below held => ?_, fun address below away fine => ?_⟩
  · rw [← first.dataBuf]
    apply second.stored address below
    rcases held with (now | next) | before
    · right
      rw [first.dataBuf]
      exact first.stored address below (.inl now)
    · exact .inl next
    · right
      rw [first.dataBuf]
      exact first.stored address below (.inr before)
  · apply second.unlogged address below (fun hit => away (.inr hit))
    exact first.unlogged address below (fun hit => away (.inl hit)) fine

theorem Enters.mono {written logged less more : Nat → Prop}
    (enters : Enters cfg s after written logged) (subset : ∀ address, less address → written address)
    (superset : ∀ address, logged address → more address) : Enters cfg s after less more :=
  ⟨enters.dataBuf, enters.faults, enters.intact,
    fun address below held => enters.stored address below (held.imp_left (subset address)),
    fun address below away => enters.unlogged address below (fun hit => away (superset address hit))⟩

theorem unlogged_of_empty {cells : Cells} (empty : logWrites cfg cells = []) (byte : Nat) :
    Unlogged cfg cells byte := by
  intro _
  rw [empty]
  rfl

theorem eepromCompact_enters (faultFree : s.flash.FaultFree) :
    Enters cfg s (eepromCompact cfg s).1 (fun _ => True) (fun _ => False) := by
  have complete : (eepromCompact cfg s).2 = .complete :=
    eepromCompact_completes (faultFree.works _)
  obtain ⟨⟨buffer, subset⟩, outcome⟩ := eepromCompact_settles (faultFree.works cfg.pageCount)
    faultFree.fallible
  have compacted : Compacted cfg (eepromCompact cfg s).1 := by
    rcases outcome with ⟨-, compacted⟩ | fails
    · exact compacted
    · rw [complete] at fails
      cases fails
  refine ⟨buffer, subset, compacted.intact, fun address below _ => ?_,
    fun address _ _ _ => unlogged_of_empty compacted.unlogged address⟩
  rw [compacted.cached address below, buffer]

/-- An entry that is appended behind an intact log. -/
theorem Appended.enters {word : Nat} {written : Nat → Prop} {new : List (Nat × Byte)}
    (appended : Appended cfg s after word new) (intact : Intact cfg s)
    (buffer : after.dataBuf = s.dataBuf) (subset : after.flash.faults ⊆ s.flash.faults)
    (overlaid : ∀ other < cfg.densityBytes, written other ∨
        Eeprom.contents cfg s.flash.cells other = s.dataBuf other →
      overlay new (Eeprom.contents cfg s.flash.cells) other = s.dataBuf other) :
    Enters cfg s after written (fun other => s.flash.cells (other / 2) = feeEmptyWord ∧
      ∃ write ∈ new, write.1 = other) := by
  refine ⟨buffer, subset, appended.changes.intact intact, fun other below held => ?_,
    fun other below away fine erased => ?_⟩
  · rw [appended.contents other below]
    exact overlaid other below held
  · rw [appended.compacted _ (half_lt_logBase below)] at erased
    rw [appended.writes, lastWrite_append_away]
    · exact fine erased
    · exact fun write member hit => away ⟨erased, write, member, hit⟩

theorem eepromWriteLogByteEntry_enters (faultFree : s.flash.FaultFree) (intact : Intact cfg s)
    (small : address.toNat < 0x80) :
    Enters cfg s (eepromWriteLogByteEntry cfg s address).1 (fun other => other = address.toNat)
      (fun other => s.flash.cells (address.toNat / 2) = feeEmptyWord ∧ other = address.toNat) := by
  rcases Nat.lt_or_ge s.emptySlot cfg.logLast with room | full
  · have complete : (eepromWriteLogByteEntry cfg s address).2 = .complete :=
      eepromWriteLogByteEntry_completes intact room (faultFree.works 1)
    obtain ⟨⟨buffer, subset, -⟩, outcome⟩ := eepromWriteLogByteEntry_settles faultFree.fallible
      small room
    rw [complete] at outcome
    obtain ⟨-, appends⟩ := outcome.resolve_right (by decide)
    have overlaid : ∀ other < cfg.densityBytes, other = address.toNat ∨
          contents cfg s.flash.cells other = s.dataBuf other →
        overlay [(address.toNat, s.dataBuf address.toNat)] (contents cfg s.flash.cells) other =
          s.dataBuf other := by
      intro other _ held
      rw [overlay_cons, overlay_nil, Function.update_apply]
      split
      next hit => rw [hit]
      next away => exact held.resolve_left away
    refine ((appends intact).enters intact buffer subset overlaid).mono (fun _ => id) ?_
    · rintro other ⟨erased, write, member, rfl⟩
      obtain rfl := List.mem_singleton.mp member
      exact ⟨erased, rfl⟩
  · rw [eepromWriteLogByteEntry_full full]
    exact (eepromCompact_enters faultFree).mono (fun _ _ => trivial) (fun _ => False.elim)

theorem eepromWriteLogWordEntry_enters (faultFree : s.flash.FaultFree) (intact : Intact cfg s)
    (even : address.toNat % 2 = 0) (high : 0x80 ≤ address.toNat)
    (inside : address.toNat < cfg.densityBytes)
    (programmed : s.flash.cells (address.toNat / 2) ≠ feeEmptyWord) :
    Enters cfg s (eepromWriteLogWordEntry cfg s address).1
      (fun other => other / 2 = address.toNat / 2) (fun _ => False) := by
  rcases Nat.lt_or_ge cfg.logLast
    (s.emptySlot + wordEntryCells (s.dataBuf.word address.toNat)) with full | room
  · rw [eepromWriteLogWordEntry_full full]
    exact (eepromCompact_enters faultFree).mono (fun _ _ => trivial) (fun _ => id)
  · have complete := eepromWriteLogWordEntry_completes intact room (faultFree.works _)
    obtain ⟨⟨buffer, subset⟩, outcome⟩ := eepromWriteLogWordEntry_settles faultFree.fallible even
      high inside room
    rw [complete] at outcome
    obtain ⟨-, appends⟩ := outcome.resolve_right (by decide)
    have overlaid : ∀ other < cfg.densityBytes, other / 2 = address.toNat / 2 ∨
          contents cfg s.flash.cells other = s.dataBuf other →
        overlay (wordWrites address.toNat (s.dataBuf.word address.toNat))
          (contents cfg s.flash.cells) other = s.dataBuf other := by
      intro other _ held
      rw [overlay_cached_word]
      split
      next => rfl
      next away => exact held.resolve_left (fun hit => away (by omega))
    refine ((appends intact).enters intact buffer subset overlaid).mono (fun _ => id) ?_
    · rintro other ⟨erased, write, member, rfl⟩
      rw [wordWrites_within even _ write member] at erased
      exact programmed erased

theorem eepromWriteDirectEntry_enters (faultFree : s.flash.FaultFree) (intact : Intact cfg s)
    (inside : address.toNat < cfg.densityBytes)
    (erased : s.flash.cells (address.toNat / 2) = feeEmptyWord)
    (unshadowed : ∀ other, other / 2 = address.toNat / 2 →
      Unshadowed cfg s.flash.cells other (s.dataBuf other)) :
    (eepromWriteDirectEntry s address).2 = .complete ∧
      Enters cfg s (eepromWriteDirectEntry s address).1
        (fun other => other / 2 = address.toNat / 2) (fun _ => False) := by
  have complete := eepromWriteDirectEntry_completes erased (faultFree.works _)
  obtain ⟨⟨buffer, subset⟩, outcome⟩ := eepromWriteDirectEntry_settles faultFree.fallible inside
    erased
  rw [complete] at outcome
  obtain ⟨-, changes, log, held⟩ := outcome.resolve_right (by decide)
  refine ⟨complete, buffer, subset, changes.intact intact, fun other below stored => ?_,
    fun other below _ fine later => ?_⟩
  · by_cases hit : other / 2 = address.toNat / 2
    · exact held other hit (unshadowed other hit)
    · rw [changes.kept other below hit]
      exact stored.resolve_left hit
  · rw [log]
    apply fine
    by_cases hit : other / 2 = address.toNat / 2
    · rw [hit]
      exact erased
    · rwa [← changes.words _ (half_lt_logBase below) hit]

end Entries

section Steps

variable {cfg : Config} {s after : Emulation} {first last : Nat} {address : HalfWord}

theorem Synced.mono {next : Nat} (synced : Synced cfg s first last) (less : first ≤ next) :
    Synced cfg s next last :=
  ⟨synced.cached, synced.intact, synced.faultFree,
    fun address below above => synced.unlogged address below (Nat.le_trans less above)⟩

theorem Synced.of_enters {buf : DataBuf} {written logged : Nat → Prop} {next : Nat}
    (synced : Synced cfg s first last)
    (enters : Enters cfg { s with dataBuf := buf } after written logged)
    (unchanged : ∀ other < cfg.densityBytes, ¬written other → buf other = s.dataBuf other)
    (less : first ≤ next) (behind : ∀ other, logged other → other < next) :
    Synced cfg after next last := by
  refine ⟨fun other below => ?_, enters.intact,
    fun entry member => synced.faultFree entry (enters.faults member),
    fun other below above within => ?_⟩
  · rw [enters.dataBuf]
    apply enters.stored other below
    by_cases now : written other
    · exact .inl now
    · exact .inr ((synced.cached other below).trans (unchanged other below now).symm)
  · apply enters.unlogged other below
    · intro hit
      exact absurd (behind other hit) (Nat.not_lt.mpr above)
    · exact synced.unlogged other below (Nat.le_trans less above) within

/-- A byte of the log that agrees with the cache shadows nothing. -/
theorem unshadowed_of_cached {cells : Cells} {buf : DataBuf} {other : Nat}
    (cached : contents cfg cells other = buf other) : Unshadowed cfg cells other (buf other) := by
  intro logged last
  rw [contents, overlay_apply, last] at cached
  exact cached

theorem unshadowed_of_unlogged {cells : Cells} {other : Nat} {dataByte : Byte}
    (unlogged : Unlogged cfg cells other) (erased : cells (other / 2) = feeEmptyWord) :
    Unshadowed cfg cells other dataByte := by
  intro logged last
  rw [unlogged erased] at last
  cases last

/-- `EEPROM_WriteDataByte` inside the block -/
theorem Synced.after_byte (synced : Synced cfg s address.toNat last) (dataByte : Byte)
    (inside : address.toNat < cfg.densityBytes) (within : address.toNat < last) :
    Synced cfg (eepromWriteDataByte cfg s address dataByte).1 (address.toNat + 1) last := by
  by_cases same : s.dataBuf address.toNat = dataByte
  · have notPast : ¬cfg.densityBytes ≤ address.toNat := by omega
    have skips : eepromWriteDataByte cfg s address dataByte = (s, .unset) := by
      simp only [eepromWriteDataByte, notPast, same, ↓reduceIte]
    rw [skips]
    exact synced.mono (Nat.le_succ _)
  have cacheIntact : Intact cfg (cacheByte s address dataByte) :=
    ⟨synced.intact.slot, synced.intact.blank⟩
  have unchanged : ∀ other < cfg.densityBytes, ¬other = address.toNat →
      Function.update s.dataBuf address.toNat dataByte other = s.dataBuf other :=
    fun other _ away => Function.update_of_ne away _ _
  by_cases erased : s.flash.cells (address.toNat / 2) = feeEmptyWord
  · obtain ⟨complete, enters⟩ := eepromWriteDirectEntry_enters
      (s := cacheByte s address dataByte) synced.faultFree cacheIntact inside
      erased (fun other hit => by
        by_cases here : other = address.toNat
        · subst here
          exact unshadowed_of_unlogged
            (synced.unlogged _ inside (Nat.le_refl _) within) erased
        · have kept : (cacheByte s address dataByte).dataBuf other = s.dataBuf other :=
            Function.update_of_ne here _ _
          have densityEven := cfg.densityEven
          rw [kept]
          exact unshadowed_of_cached (synced.cached other (by omega)))
    rw [eepromWriteDataByte_changed inside same, if_neg (by rw [complete]; decide)]
    have narrow : Enters cfg (cacheByte s address dataByte)
        (eepromWriteDirectEntry (cacheByte s address dataByte) address).1
        (fun other => other = address.toNat) (fun _ => False) :=
      enters.mono (fun other hit => by rw [hit]) (fun _ => id)
    exact synced.of_enters narrow unchanged (Nat.le_succ _) (fun _ => False.elim)
  rw [eepromWriteDataByte_logged inside same erased]
  by_cases small : address < feeByteRange
  · rw [if_pos small]
    exact synced.of_enters (eepromWriteLogByteEntry_enters (s := cacheByte s address dataByte)
      synced.faultFree cacheIntact (BitVec.lt_def.mp small)) unchanged (Nat.le_succ _)
      (fun other hit => by omega)
  · have high : 0x80 ≤ address.toNat := by simpa [BitVec.lt_def, feeByteRange] using small
    have aligned := aligned_toNat address
    have half : 2 * (address.toNat / 2) / 2 = address.toNat / 2 := by omega
    have whole : (address &&& 0xFFFE).toNat % 2 = 0 := by omega
    have narrow : Enters cfg (cacheByte s address dataByte)
        (eepromWriteLogWordEntry cfg (cacheByte s address dataByte) (address &&& 0xFFFE)).1
        (fun other => other = address.toNat) (fun _ => False) :=
      (eepromWriteLogWordEntry_enters (s := cacheByte s address dataByte) synced.faultFree
        cacheIntact whole (by omega) (by omega) (by rw [aligned, half]; exact erased)).mono
        (fun other hit => by omega) (fun _ => id)
    rw [if_neg small]
    exact synced.of_enters narrow unchanged (Nat.le_succ _) (fun _ => False.elim)

/-- The byte entries of a word below `FEE_BYTE_RANGE`: only the bytes that have changed. -/
theorem eepromWriteChangedBytes_enters (faultFree : s.flash.FaultFree) (intact : Intact cfg s)
    (small : address.toNat < 0x80) (inside : address.toNat < cfg.densityBytes)
    (even : address.toNat % 2 = 0) (oldValue dataWord : HalfWord) :
    Enters cfg s (eepromWriteChangedBytes cfg s address oldValue dataWord).1
      (fun other => other = address.toNat ∧ oldValue.setWidth 8 ≠ dataWord.setWidth 8 ∨
        other = address.toNat + 1 ∧ oldValue >>> 8 ≠ dataWord >>> 8)
      (fun other => other < address.toNat + 2) := by
  have next := next_toNat inside
  have lowEnters : Enters cfg s (if oldValue.setWidth 8 ≠ dataWord.setWidth 8 then
        eepromWriteLogByteEntry cfg s address else (s, .complete)).1
      (fun other => other = address.toNat ∧ oldValue.setWidth 8 ≠ dataWord.setWidth 8)
      (fun other => other < address.toNat + 2) := by
    split
    next =>
      exact (eepromWriteLogByteEntry_enters faultFree intact small).mono (fun _ hit => hit.1)
        (fun other hit => by omega)
    next same => exact (Enters.refl intact).mono (fun _ hit => same hit.2) (fun _ => False.elim)
  unfold eepromWriteChangedBytes
  generalize (if oldValue.setWidth 8 ≠ dataWord.setWidth 8 then
    eepromWriteLogByteEntry cfg s address else (s, .complete)) = low at lowEnters ⊢
  have middleFree : low.1.flash.FaultFree := fun entry member =>
    faultFree entry (lowEnters.faults member)
  have highEnters : Enters cfg low.1 (if oldValue >>> 8 ≠ dataWord >>> 8 then
        eepromWriteLogByteEntry cfg low.1 (address + 1) else (low.1, .complete)).1
      (fun other => other = address.toNat + 1 ∧ oldValue >>> 8 ≠ dataWord >>> 8)
      (fun other => other < address.toNat + 2) := by
    split
    next =>
      exact (eepromWriteLogByteEntry_enters middleFree lowEnters.intact (by omega)).mono
        (fun other hit => hit.1.trans next.symm) (fun other hit => by omega)
    next same =>
      exact (Enters.refl lowEnters.intact).mono (fun _ hit => same hit.2) (fun _ => False.elim)
  exact (lowEnters.trans highEnters).mono (fun _ => id) (fun _ hit => hit.elim id id)

/-- `EEPROM_WriteDataWord` inside the block -/
theorem Synced.after_word (synced : Synced cfg s address.toNat last) (dataWord : HalfWord)
    (even : address.toNat % 2 = 0) (inside : address.toNat < cfg.densityBytes)
    (within : address.toNat + 1 < last) :
    Synced cfg (eepromWriteDataWord cfg s address dataWord).1 (address.toNat + 2) last := by
  have densityEven := cfg.densityEven
  have notPast : ¬cfg.densityBytes ≤ address.toNat := by omega
  have notOdd : ¬address.toNat % 2 = 1 := by omega
  by_cases same : s.dataBuf.word address.toNat = dataWord
  · have skips : eepromWriteDataWord cfg s address dataWord = (s, .unset) := by
      simp only [eepromWriteDataWord, notPast, notOdd, same, ↓reduceIte]
    rw [skips]
    exact synced.mono (by omega)
  have cacheIntact : Intact cfg (cacheWord s address dataWord) :=
    ⟨synced.intact.slot, synced.intact.blank⟩
  have unfolded := eepromWriteDataWord_changed even inside same
  have untouched : ∀ other < cfg.densityBytes, ¬other / 2 = address.toNat / 2 →
      s.dataBuf.setWord address.toNat dataWord other = s.dataBuf other :=
    fun other _ away => setWord_away _ _ (by omega) (by omega)
  by_cases erased : s.flash.cells (address.toNat / 2) = feeEmptyWord
  · obtain ⟨complete, enters⟩ := eepromWriteDirectEntry_enters
      (s := cacheWord s address dataWord) synced.faultFree cacheIntact inside
      erased (fun other hit => unshadowed_of_unlogged
        (synced.unlogged other (by omega) (by omega) (by omega)) (hit ▸ erased))
    rw [unfolded, if_neg (by rw [complete]; decide)]
    exact synced.of_enters enters untouched (by omega) (fun _ => False.elim)
  rw [unfolded, eepromWriteDirectEntry_skips (s := cacheWord s address dataWord) erased, if_pos rfl]
  by_cases small : address < feeByteRange
  · rw [if_pos small]
    refine synced.of_enters (eepromWriteChangedBytes_enters (s := cacheWord s address dataWord)
      synced.faultFree cacheIntact (BitVec.lt_def.mp small) inside even _ _)
      (fun other _ outside => ?_) (by omega) (fun other hit => hit)
    refine setWord_same s.dataBuf dataWord address.toNat other ?_ ?_
    · intro isLow
      by_contra changed
      exact outside (.inl ⟨isLow, changed⟩)
    · intro isHigh
      by_contra changed
      exact outside (.inr ⟨isHigh, changed⟩)
  · have high : 0x80 ≤ address.toNat := by simpa [BitVec.lt_def, feeByteRange] using small
    rw [if_neg small]
    exact synced.of_enters (eepromWriteLogWordEntry_enters (s := cacheWord s address dataWord)
      synced.faultFree cacheIntact even high inside erased) untouched (by omega)
      (fun _ => False.elim)

end Steps

section Cache

variable {cfg : Config} {s other : Emulation} {address : HalfWord}

theorem eepromWriteDirectEntry_dataBuf (s : Emulation) (address : HalfWord) :
    (eepromWriteDirectEntry s address).1.dataBuf = s.dataBuf := by
  simp only [eepromWriteDirectEntry]
  split
  · split <;> rfl
  · rfl

theorem eepromWriteLogByteEntry_dataBuf (cfg : Config) (s : Emulation) (address : HalfWord) :
    (eepromWriteLogByteEntry cfg s address).1.dataBuf = s.dataBuf := by
  simp only [eepromWriteLogByteEntry]
  split <;> rfl

theorem eepromWriteLogWordEntry_dataBuf (cfg : Config) (s : Emulation) (address : HalfWord) :
    (eepromWriteLogWordEntry cfg s address).1.dataBuf = s.dataBuf := by
  simp only [eepromWriteLogWordEntry]
  repeat' split
  all_goals rfl

theorem eepromWriteChangedBytes_dataBuf (cfg : Config) (s : Emulation)
    (address oldValue dataWord : HalfWord) :
    (eepromWriteChangedBytes cfg s address oldValue dataWord).1.dataBuf = s.dataBuf := by
  simp only [eepromWriteChangedBytes]
  split <;> split <;> simp only [eepromWriteLogByteEntry_dataBuf]

/-- Whatever the flash does, `EEPROM_WriteDataByte` puts the byte into `DataBuf`. -/
theorem eepromWriteDataByte_dataBuf (cfg : Config) (s : Emulation) (address : HalfWord)
    (dataByte : Byte) :
    (eepromWriteDataByte cfg s address dataByte).1.dataBuf =
      if address.toNat < cfg.densityBytes then Function.update s.dataBuf address.toNat dataByte
      else s.dataBuf := by
  by_cases inside : address.toNat < cfg.densityBytes
  · rw [if_pos inside]
    by_cases same : s.dataBuf address.toNat = dataByte
    · have notPast : ¬cfg.densityBytes ≤ address.toNat := by omega
      simp only [eepromWriteDataByte, notPast, same, ↓reduceIte]
      rw [← same, Function.update_eq_self]
    · rw [eepromWriteDataByte_changed inside same]
      have cached : (cacheByte s address dataByte).dataBuf =
          Function.update s.dataBuf address.toNat dataByte := rfl
      split
      · split
        · rw [eepromWriteLogByteEntry_dataBuf, eepromWriteDirectEntry_dataBuf, cached]
        · rw [eepromWriteLogWordEntry_dataBuf, eepromWriteDirectEntry_dataBuf, cached]
      · rw [eepromWriteDirectEntry_dataBuf, cached]
  · rw [eepromWriteDataByte, if_pos (Nat.not_lt.mp inside), if_neg inside]

/-- `EEPROM_WriteDataWord` at an even address puts both bytes into `DataBuf`. -/
theorem eepromWriteDataWord_dataBuf (cfg : Config) (s : Emulation) {address : HalfWord}
    (even : address.toNat % 2 = 0) (dataWord : HalfWord) :
    (eepromWriteDataWord cfg s address dataWord).1.dataBuf =
      if address.toNat < cfg.densityBytes then s.dataBuf.setWord address.toNat dataWord
      else s.dataBuf := by
  by_cases inside : address.toNat < cfg.densityBytes
  · rw [if_pos inside]
    by_cases same : s.dataBuf.word address.toNat = dataWord
    · have notPast : ¬cfg.densityBytes ≤ address.toNat := by omega
      have notOdd : ¬address.toNat % 2 = 1 := by omega
      simp only [eepromWriteDataWord, notPast, notOdd, same, ↓reduceIte]
      funext byte
      exact (setWord_same s.dataBuf dataWord address.toNat byte (fun _ => by rw [same])
        (fun _ => by rw [same])).symm
    · rw [eepromWriteDataWord_changed even inside same]
      have cached : (cacheWord s address dataWord).dataBuf =
          s.dataBuf.setWord address.toNat dataWord := rfl
      split
      · split
        · rw [eepromWriteChangedBytes_dataBuf, eepromWriteDirectEntry_dataBuf, cached]
        · rw [eepromWriteLogWordEntry_dataBuf, eepromWriteDirectEntry_dataBuf, cached]
      · rw [eepromWriteDirectEntry_dataBuf, cached]
  · rw [eepromWriteDataWord, if_pos (Nat.not_lt.mp inside), if_neg inside]

end Cache

section Blocks

variable {cfg : Config} {s other : Emulation}

theorem address_toNat {dest : Nat} (within : dest < 0x10000) :
    (BitVec.ofNat 16 dest).toNat = dest := by
  rw [BitVec.toNat_ofNat]
  omega

/-- An address past the end is turned away. -/
theorem eepromWriteDataByte_past {address : HalfWord} (past : cfg.densityBytes ≤ address.toNat)
    (s : Emulation) (dataByte : Byte) : (eepromWriteDataByte cfg s address dataByte).1 = s := by
  rw [eepromWriteDataByte, if_pos past]

theorem eepromWriteDataWord_past {address : HalfWord} (past : cfg.densityBytes ≤ address.toNat)
    (s : Emulation) (dataWord : HalfWord) : (eepromWriteDataWord cfg s address dataWord).1 = s := by
  rw [eepromWriteDataWord, if_pos past]

/-- The word that a round of the loop takes from the buffer. -/
theorem loopWord (memory : Memory) (aligned : Bool) (src : Nat) :
    (if aligned then DataBuf.word memory src else bytesWord (memory src) (memory (src + 1))) =
      DataBuf.word memory src := by
  rw [bytesWord_eq]
  exact ite_self _

/-- One round of the word loop leaves the cache that two byte writes leave. -/
theorem word_dataBuf {dest : Nat} (even : dest % 2 = 0) (within : dest + 1 < 0x10000)
    (same : s.dataBuf = other.dataBuf) (memory : Memory) (src : Nat) :
    (eepromWriteDataWord cfg s (BitVec.ofNat 16 dest) (DataBuf.word memory src)).1.dataBuf =
      (eepromWriteDataByte cfg (eepromWriteDataByte cfg other (BitVec.ofNat 16 dest)
        (memory src)).1 (BitVec.ofNat 16 (dest + 1)) (memory (src + 1))).1.dataBuf := by
  have densityEven := cfg.densityEven
  have here := address_toNat (show dest < 0x10000 by omega)
  have next := address_toNat within
  rw [eepromWriteDataWord_dataBuf cfg s (by omega), eepromWriteDataByte_dataBuf,
    eepromWriteDataByte_dataBuf, here, next, same]
  by_cases inside : dest < cfg.densityBytes
  · rw [if_pos inside, if_pos (by omega), if_pos inside, DataBuf.setWord, DataBuf.word, append_low,
      append_high]
  · rw [if_neg inside, if_neg (by omega), if_neg inside]

/-- Whatever the flash does, the words of a block leave the same `DataBuf` as its bytes. -/
theorem writeWords_dataBuf (memory : Memory) (aligned : Bool) (len : Nat) (src dest : Nat)
    (even : dest % 2 = 0) (within : dest + len ≤ 0x10000) (same : s.dataBuf = other.dataBuf) :
    (writeWords cfg memory aligned len s src dest).dataBuf =
      (writeBytes cfg memory len other src dest).dataBuf := by
  induction len using Nat.twoStepInduction generalizing s other src dest with
  | zero => exact same
  | one => rw [writeWords, writeBytes, writeBytes, eepromWriteDataByte_dataBuf,
      eepromWriteDataByte_dataBuf, same]
  | more len ih _ =>
    rw [writeWords, writeBytes, writeBytes, loopWord]
    exact ih _ _ (by omega) (by omega) (word_dataBuf even (by omega) same memory src)

/-- The bytes of the block one by one keep the flash in step with the cache. -/
theorem Synced.after_bytes (memory : Memory) (len : Nat) {dest last : Nat} (src : Nat)
    (synced : Synced cfg s dest last) (within : dest + len ≤ 0x10000)
    (covered : dest + len ≤ last) :
    Synced cfg (writeBytes cfg memory len s src dest) (dest + len) last := by
  induction len generalizing s src dest with
  | zero => exact synced
  | succ len ih =>
    have here := address_toNat (show dest < 0x10000 by omega)
    rw [writeBytes, Nat.add_comm len 1, ← Nat.add_assoc]
    refine ih (src + 1) ?_ (by omega) (by omega)
    by_cases inside : dest < cfg.densityBytes
    · have step := Synced.after_byte (here.symm ▸ synced) (memory src) (by omega) (by omega)
      rwa [here] at step
    · rw [eepromWriteDataByte_past (by omega)]
      exact synced.mono (Nat.le_succ _)

/-- So do its words. -/
theorem Synced.after_words (memory : Memory) (aligned : Bool) (len : Nat) {dest last : Nat}
    (src : Nat) (synced : Synced cfg s dest last) (even : dest % 2 = 0)
    (within : dest + len ≤ 0x10000) (covered : dest + len ≤ last) :
    Synced cfg (writeWords cfg memory aligned len s src dest) (dest + len) last := by
  induction len using Nat.twoStepInduction generalizing s src dest with
  | zero => exact synced
  | one => exact synced.after_bytes memory 1 src within covered
  | more len ih _ =>
    have here := address_toNat (show dest < 0x10000 by omega)
    rw [writeWords, Nat.add_comm len 2, ← Nat.add_assoc]
    refine ih (src + 2) ?_ (by omega) (by omega) (by omega)
    rw [loopWord]
    by_cases inside : dest < cfg.densityBytes
    · have step := Synced.after_word (here.symm ▸ synced) (DataBuf.word memory src) (by omega)
        (by omega) (by omega)
      rwa [here] at step
    · rw [eepromWriteDataWord_past (by omega)]
      exact synced.mono (by omega)

/-- `eeprom_write_block` leaves the cache that the single bytes leave. -/
theorem eepromWriteBlock_dataBuf (cfg : Config) (s : Emulation) (memory : Memory)
    (buf addr len : Nat) (within : addr + len ≤ 0x10000) :
    (eepromWriteBlock cfg s memory buf addr len).dataBuf =
      (writeBytes cfg memory len s buf addr).dataBuf := by
  unfold eepromWriteBlock
  split
  next odd =>
    obtain ⟨some, odd⟩ := odd
    obtain ⟨rest, rfl⟩ := Nat.exists_eq_succ_of_ne_zero some
    rw [Nat.succ_sub_one, writeBytes]
    exact writeWords_dataBuf memory _ rest _ _ (by omega) (by omega) rfl
  next whole =>
    by_cases none : len = 0
    · subst none
      rfl
    · exact writeWords_dataBuf memory _ len _ _ (by omega) within rfl

theorem Synced.after_block {addr last : Nat} (synced : Synced cfg s addr last) (memory : Memory)
    (buf len : Nat) (within : addr + len ≤ 0x10000) (covered : addr + len ≤ last) :
    Synced cfg (eepromWriteBlock cfg s memory buf addr len) (addr + len) last := by
  unfold eepromWriteBlock
  split
  next odd =>
    obtain ⟨some, odd⟩ := odd
    obtain ⟨rest, rfl⟩ := Nat.exists_eq_succ_of_ne_zero some
    have first := synced.after_bytes memory 1 buf (by omega) (by omega)
    have later := first.after_words memory ((buf + 1) % 2 = 0) rest (buf + 1) (by omega) (by omega)
      (by omega)
    rwa [Nat.add_assoc, Nat.add_comm 1 rest] at later
  next whole =>
    by_cases none : len = 0
    · subst none
      exact synced
    · exact synced.after_words memory _ len buf (by omega) within covered

/-- Block access is bytewise access: for every state, `eeprom_read_block` reads the bytes and
`eeprom_write_block` leaves the `DataBuf` of the single byte operations; after a restart the
contents are the same too when the flash works and stands for `DataBuf` at the start, and no
erased word of the block has an entry in the log. -/
theorem block_bytewise (cfg : Config) (s : Emulation) (memory : Memory) (buf addr len : Nat)
    (within : addr + len ≤ 65536) :
    eepromReadBlock cfg s memory buf addr len = readInto cfg s memory buf addr len ∧
      (eepromWriteBlock cfg s memory buf addr len).dataBuf =
        (writeBytes cfg memory len s buf addr).dataBuf ∧
      (Synced cfg s addr (addr + len) → ∀ address < cfg.densityBytes,
        (eepromInit cfg (eepromWriteBlock cfg s memory buf addr len)).1.dataBuf address =
          (eepromInit cfg (writeBytes cfg memory len s buf addr)).1.dataBuf address) := by
  have sameCache := eepromWriteBlock_dataBuf cfg s memory buf addr len within
  refine ⟨eepromReadBlock_bytes s memory buf addr len within, sameCache,
    fun synced address below => ?_⟩
  have block := synced.after_block memory buf len within (Nat.le_refl _)
  have bytes := synced.after_bytes memory len buf within (Nat.le_refl _)
  rw [eepromInit_dataBuf _ below, eepromInit_dataBuf _ below, block.cached address below,
    bytes.cached address below, sameCache]

/-- After power on over erased flash any block may be written. -/
theorem powerOn_synced (cfg : Config) (first last : Nat) :
    Synced cfg (powerOn cfg erasedCells) first last := by
  have coherent := powerOn_coherent (erasedCells_sound cfg)
  have empty : logWrites cfg erasedCells = [] := (log_of_blank (fun _ _ _ => rfl)).1
  refine ⟨coherent.cached, ⟨coherent.slot, fun _ _ _ => rfl⟩, fun entry member => ?_,
    fun address _ _ _ => unlogged_of_empty empty address⟩
  rw [coherent.working] at member
  cases member

theorem block_bytewise_tiny :
    (eepromInit tinyConfig (eepromWriteBlock tinyConfig (powerOn tinyConfig erasedCells)
        (fun _ => 5) 1 0 2)).1.dataBuf 1 =
      (eepromInit tinyConfig (writeBytes tinyConfig (fun _ => 5) 2
        (powerOn tinyConfig erasedCells) 1 0)).1.dataBuf 1 :=
  (block_bytewise tinyConfig (powerOn tinyConfig erasedCells) (fun _ => 5) 1 0 2 (by decide)).2.2
    (powerOn_synced tinyConfig 0 2) 1 (by decide)

/-- After a word of 0 has been split over a compaction, its word lies erased below an entry
for the high byte. The block programs the word below that entry; the second of the single
bytes is appended behind it. -/
theorem block_shadowed :
    let s := run (Call.exec tinyConfig) (powerOn tinyConfig erasedCells)
      [.writeDataWord 0 0x0101, .writeDataByte 0 2, .writeDataWord 0 0]
    (eepromInit tinyConfig (eepromWriteBlock tinyConfig s (fun _ => 5) 0 0 2)).1.dataBuf 1 = 0 ∧
      (eepromInit tinyConfig (writeBytes tinyConfig (fun _ => 5) 2 s 0 0)).1.dataBuf 1 = 5 := by
  decide

end Blocks

end QmkSonix.Eeprom
