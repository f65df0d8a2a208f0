import QmkSonix.Report.Bookkeeping

/-! The ring-buffered report as a queue of the last keys pressed, whatever holes
the ring has in between. -/

namespace QmkSonix.Report

open QmkSonix.Lib

section Queue

variable {Key : Type*} [DecidableEq Key]

/-- A queue of distinct keys: a key that is there keeps its place, a new one goes
to the end, and the oldest one gives way when the queue is full. -/
def enqueue (capacity : Nat) (queue : List Key) (key : Key) : List Key :=
  if key ∈ queue then queue
  else if queue.length < capacity then queue ++ [key]
  else queue.tail ++ [key]

def remove (queue : List Key) (key : Key) : List Key := queue.filter (· ≠ key)

end Queue

/-- The operations on single keys. -/
inductive KeyOp where
  | addKeyByte (code : KeyCode)
  | delKeyByte (code : KeyCode)

def KeyOp.exec (s : KeyRing) : KeyOp → KeyRing
  | .addKeyByte code => Report.addKeyByte s code.1
  | .delKeyByte code => Report.delKeyByte s code.1

def KeyOp.apply (queue : List Byte) : KeyOp → List Byte
  | .addKeyByte code => enqueue keyboardReportKeys queue code.1
  | .delKeyByte code => remove queue code.1

/-- The nonzero keys read from `cb_head` to `cb_tail`. -/
def KeyRing.heldKeys (s : KeyRing) : List Byte :=
  ((List.range s.span).map fun k => s.keys (slot s.cbHead k)).filter (· ≠ 0)

section Windows

variable {s : KeyRing} {window : List Byte} {code : Byte}

theorem Holds.heldKeys (holds : Holds s window) : s.heldKeys = window.filter (· ≠ 0) := by
  have read : (List.range s.span).map (fun k => s.keys (slot s.cbHead k)) = window := by
    rw [holds.span_eq]
    apply List.ext_getElem
    · simp
    · intro k inside within
      rw [List.getElem_map, List.getElem_range, holds.shows.get within]
  rw [KeyRing.heldKeys, read]

/-- Holes make room: only six keys without a hole between them let the oldest go. -/
theorem pushKey_keys (fits : window.length ≤ keyboardReportKeys) (nonzero : code ≠ 0) :
    (pushKey window code).filter (· ≠ 0) =
      enqueue keyboardReportKeys (window.filter (· ≠ 0)) code := by
  have appended (keys : List Byte) :
      (keys ++ [code]).filter (· ≠ 0) = keys.filter (· ≠ 0) ++ [code] := by
    simp [List.filter_append, nonzero]
  have fewer : (window.filter (· ≠ 0)).length ≤ window.length := List.length_filter_le _ _
  have same : code ∈ window.filter (· ≠ 0) ↔ code ∈ window := by simp [nonzero]
  rw [enqueue, pushKey]
  by_cases held : code ∈ window
  · rw [if_pos held, if_pos (same.mpr held)]
  rw [if_neg held, if_neg (same.not.mpr held)]
  by_cases room : window.length < keyboardReportKeys
  · have free : (window.filter (· ≠ 0)).length < keyboardReportKeys := by omega
    rw [if_pos room, if_pos free, appended]
  rw [if_neg room]
  by_cases hole : 0 ∈ window
  · have free : (window.filter (· ≠ 0)).length < keyboardReportKeys := by
      have shorter : (window.filter (· ≠ 0)).length < window.length :=
        List.length_filter_lt_length_iff_exists.mpr ⟨0, hole, by decide⟩
      omega
    rw [if_pos hole, if_pos free, appended, List.filter_filter]
    simp
  · have whole : window.filter (· ≠ 0) = window := by
      rw [List.filter_eq_self]
      intro key member
      simpa using ne_of_mem_of_not_mem member hole
    have newer : window.tail.filter (· ≠ 0) = window.tail := by
      rw [List.filter_eq_self]
      intro key member
      simpa using ne_of_mem_of_not_mem (List.mem_of_mem_tail member) hole
    rw [if_neg hole, appended, whole, newer, if_neg room]

theorem dropKey_keys (window : List Byte) (code : Byte) :
    (dropKey window code).filter (· ≠ 0) = remove (window.filter (· ≠ 0)) code := by
  have untrimmed (keys : List Byte) :
      (keys.rdropWhile (· = 0)).filter (· ≠ 0) = keys.filter (· ≠ 0) := by
    obtain ⟨count, padded⟩ := rdropWhile_padded keys
    conv_rhs => rw [padded]
    simp [List.filter_append]
  rw [dropKey, untrimmed, remove]
  induction window with
  | nil => rfl
  | cons key rest ih =>
    by_cases released : key = code
    · by_cases hole : key = 0
      · simpa [released, hole] using ih
      · simpa [released] using ih
    · by_cases hole : key = 0
      · simpa [released, hole] using ih
      · simpa [released, hole] using ih

end Windows

/-- The ring and the queue go through a run together. -/
theorem ring_is_queue_of_last_keys (ops : List KeyOp) :
    (run KeyOp.exec {} ops).heldKeys = run KeyOp.apply [] ops := by
  have keeps : ∀ (s : KeyRing) (queue : List Byte) (op : KeyOp),
      (∃ window, Holds s window ∧ window.filter (· ≠ 0) = queue) → True →
      ∃ window, Holds (op.exec s) window ∧ window.filter (· ≠ 0) = op.apply queue := by
    rintro s queue op ⟨window, holds, rfl⟩ _
    cases op with
    | addKeyByte code =>
      exact ⟨_, addKeyByte_holds holds code.2, pushKey_keys holds.shows.fits code.2⟩
    | delKeyByte code =>
      exact ⟨_, delKeyByte_holds holds code.2, dropKey_keys window code.1⟩
  obtain ⟨window, holds, same⟩ := run_simulates keeps ⟨[], holds_empty, rfl⟩
    (along_of_forall (fun _ _ => trivial) _ ops)
  rw [holds.heldKeys, same, List.filter_nil]

end QmkSonix.Report
