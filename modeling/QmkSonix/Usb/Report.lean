import QmkSonix.Lib.Run
import QmkSonix.Modifiers.Model

/-! The keyboard report of `report.c` as the union that it is, and what the host reads of
it. Built with `NKRO_ENABLE` and without `RING_BUFFERED_6KRO_REPORT_ENABLE`, for the
descriptors of `usb_descriptor.c` and the packets of `usb_main.c`. -/

namespace QmkSonix.Usb

open Lib
open Layer (Byte)
open Modifiers (Report)

/-- A nonzero key code. -/
abbrev KeyCode := { code : Byte // code ≠ 0 }

def reportIdKeyboard : Byte := 1
def reportIdNkro : Byte := 6

/-- `KEYBOARD_SHARED_EP` -/
structure Build where
  keyboardSharedEp : Bool

/-- `mods` stands behind the report id, where there is one. -/
def Build.modsAt (build : Build) : ℕ := if build.keyboardSharedEp then 1 else 0

theorem Build.modsAt_le (build : Build) : build.modsAt ≤ 1 := by
  unfold Build.modsAt
  split <;> omega

/-- The bytes of the union: `sizeof(struct nkro_report)` of them. -/
abbrev Raw := Fin 32 → Byte

/-- One of the `KEYBOARD_REPORT_KEYS`. -/
abbrev Slot := Fin 6

section Layout

variable (build : Build)

/-- `mods` -/
def modsByte : Fin 32 := ⟨build.modsAt, by have := build.modsAt_le; omega⟩

/-- `keys[i]` -/
def keyByte (i : Slot) : Fin 32 := ⟨build.modsAt + 2 + i, by have := build.modsAt_le; omega⟩

/-- `nkro.bits[i]`, for one of the `KEYBOARD_REPORT_BITS`. -/
def bitsByte (i : Fin 30) : Fin 32 := ⟨2 + i, by omega⟩

scoped instance boot_nonzero : NeZero 8 := ⟨by decide⟩

/-- `code >> 3` -/
def groupOf (code : Byte) (room : code.toNat < 240) : Fin 30 := ⟨code.toNat / 8, by omega⟩

end Layout

/-- A packet on its endpoint: a report with `REPORT_ID_NKRO` on the shared one, or one of
the keyboard, in the report protocol or in the boot protocol. -/
inductive Packet (build : Build) where
  | nkro (bytes : Raw)
  | keyboard (bytes : Fin (build.modsAt + 8) → Byte)
  | boot (bytes : Fin 8 → Byte)

/-- `keyboard_report`, `keyboard_protocol`, `keymap_config.nkro`, and the packets that have
been sent. -/
structure State (build : Build) where
  report : Raw := fun _ => 0
  keyboardProtocol : Bool := true
  nkro : Bool := false
  sent : List (Packet build) := []

/-- `1 << (code & 7)` -/
def bitOf (code : Byte) : Byte := BitVec.twoPow 8 (code.toNat % 8)

section Bytes

variable (build : Build) (code : Byte) (report : Raw)

/-- The loop of `add_key_byte`: `none` where it breaks because the code is there, else the
first empty slot it met. -/
def findEmpty (slots : Slot → Byte) (code : Byte) : List Slot → Option Slot → Option (Option Slot)
  | [], empty => some empty
  | i :: rest, empty =>
    if slots i = code then none
    else findEmpty slots code rest (if empty = none ∧ slots i = 0 then some i else empty)

def addKeyByte : Raw :=
  match findEmpty (fun i => report (keyByte build i)) code (List.finRange 6) none with
  | some (some empty) => Function.update report (keyByte build empty) code
  | _ => report

/-- The loop of `del_key_byte`. -/
def delFrom : List Slot → Raw → Raw
  | [], report => report
  | i :: rest, report =>
    delFrom rest (if report (keyByte build i) = code then Function.update report (keyByte build i) 0
      else report)

def delKeyByte : Raw := delFrom build code (List.finRange 6) report

def addKeyBit : Raw :=
  if room : code.toNat < 240 then
    let place := bitsByte (groupOf code room)
    Function.update report place (report place ||| bitOf code)
  else report

def delKeyBit : Raw :=
  if room : code.toNat < 240 then
    let place := bitsByte (groupOf code room)
    Function.update report place (report place &&& ~~~bitOf code)
  else report

end Bytes

section Functions

variable {build : Build}

/-- `keyboard_protocol && keymap_config.nkro` -/
def State.usesBits (s : State build) : Bool := s.keyboardProtocol && s.nkro

/-- `has_anykey` -/
def hasAnykey (s : State build) : ℕ :=
  if s.usesBits then (List.finRange 30).countP fun i => s.report (bitsByte i) ≠ 0
  else (List.finRange 6).countP fun i => s.report (keyByte build i) ≠ 0

/-- `is_key_pressed` -/
def isKeyPressed (s : State build) (key : Byte) : Bool :=
  if key = 0 then false
  else if s.usesBits then
    if room : key.toNat < 240 then s.report (bitsByte (groupOf key room)) &&& bitOf key ≠ 0
    else false
  else (List.finRange 6).any fun i => s.report (keyByte build i) = key

/-- `add_key_to_report` -/
def addKeyToReport (key : Byte) (s : State build) : State build :=
  { s with report := if s.usesBits then addKeyBit key s.report else addKeyByte build key s.report }

/-- `del_key_from_report` -/
def delKeyFromReport (key : Byte) (s : State build) : State build :=
  { s with report := if s.usesBits then delKeyBit key s.report else delKeyByte build key s.report }

/-- `clear_keys_from_report` -/
def clearKeysFromReport (s : State build) : State build :=
  { s with
    report := fun place =>
      if s.usesBits then if 2 ≤ place.val then 0 else s.report place
      else if build.modsAt + 2 ≤ place.val ∧ place.val < build.modsAt + 8 then 0
      else s.report place }

/-- `host_keyboard_send` and the `send_keyboard` of the driver, which is active. -/
def hostKeyboardSend (s : State build) : State build :=
  if s.usesBits then
    let report := Function.update (Function.update s.report 1 (s.report (modsByte build)))
      0 reportIdNkro
    { s with report := report, sent := s.sent ++ [.nkro report] }
  else
    let report :=
      if build.keyboardSharedEp then Function.update s.report 0 reportIdKeyboard else s.report
    { s with
      report := report
      sent := s.sent ++
        [if s.keyboardProtocol then
          .keyboard fun i => report ⟨i, by have := build.modsAt_le; omega⟩
        else .boot fun i => report ⟨build.modsAt + i, by have := build.modsAt_le; omega⟩] }

/-- `send_keyboard_report`, with the modifiers that it sends. -/
def sendKeyboardReport (mods : Byte) (s : State build) : State build :=
  hostKeyboardSend { s with report := Function.update s.report (modsByte build) mods }

/-- `MAGIC_HOST_NKRO`, `MAGIC_UNHOST_NKRO` and `MAGIC_TOGGLE_NKRO`, with `clear_keyboard`. -/
def magicNkro (nkro : Bool → Bool) (mods : Byte) (s : State build) : State build :=
  { sendKeyboardReport mods (clearKeysFromReport s) with nkro := nkro s.nkro }

/-- `HID_SET_PROTOCOL` -/
def setProtocol (protocol : Bool) (s : State build) : State build :=
  { s with keyboardProtocol := protocol, nkro := protocol }

end Functions

/-- What is done to the report, by the firmware and by the host. -/
inductive Op where
  | addKey (key : KeyCode)
  | delKey (key : KeyCode)
  | clearKeys
  | sendKeyboardReport (mods : Byte)
  | magicNkro (nkro : Bool → Bool) (mods : Byte)
  | setProtocol (protocol : Bool)

def Op.exec {build : Build} (s : State build) : Op → State build
  | .addKey key => addKeyToReport key.1 s
  | .delKey key => delKeyFromReport key.1 s
  | .clearKeys => clearKeysFromReport s
  | .sendKeyboardReport mods => Usb.sendKeyboardReport mods s
  | .magicNkro nkro mods => Usb.magicNkro nkro mods s
  | .setProtocol protocol => Usb.setProtocol protocol s

/-! ### What the host reads -/

/-- The key array of a report: its usages but for "no event". -/
def usages (slots : Slot → Byte) : Finset Byte := (Finset.univ.image slots).erase 0

/-- The bit of a key is set. -/
def InBits (bytes : Raw) (code : Byte) : Prop :=
  ∃ room : code.toNat < 240,
    (bytes (bitsByte (groupOf code room))).getLsbD (code.toNat % 8) = true

instance (bytes : Raw) (code : Byte) : Decidable (InBits bytes code) :=
  inferInstanceAs (Decidable (∃ _, _))

/-- The host reads a packet by the descriptor of its endpoint. -/
def Packet.read {build : Build} : Packet build → Option Report
  | .nkro bytes =>
    if bytes 0 = reportIdNkro then
      some { mods := bytes 1
             keys := Finset.univ.filter (InBits bytes) }
    else none
  | .keyboard bytes =>
    if build.keyboardSharedEp → bytes ⟨0, by omega⟩ = reportIdKeyboard then
      some { mods := bytes ⟨build.modsAt, by omega⟩
             keys := usages fun i => bytes ⟨build.modsAt + 2 + i, by omega⟩ }
    else none
  | .boot bytes => some { mods := bytes 0, keys := usages fun i => bytes ⟨2 + i, by omega⟩ }

/-- The keys that are held, as many as the protocol has room for, and the reports of them. -/
structure Held where
  keys : Finset Byte := ∅
  keyboardProtocol : Bool := true
  nkro : Bool := false
  reports : List Report := []

namespace Held

variable (held : Held)

def usesBits : Bool := held.keyboardProtocol && held.nkro

/-- Six keys fit, or every key with a bit of its own. -/
def hasRoom (key : Byte) : Prop :=
  if held.usesBits then key.toNat < 240 else held.keys.card < 6

instance (key : Byte) : Decidable (held.hasRoom key) := by
  unfold hasRoom
  infer_instance

def send (mods : Byte) : Held :=
  { held with reports := held.reports ++ [{ mods, keys := held.keys }] }

def exec : Op → Held
  | .addKey key => if held.hasRoom key.1 then { held with keys := insert key.1 held.keys } else held
  | .delKey key => { held with keys := held.keys.erase key.1 }
  | .clearKeys => { held with keys := ∅ }
  | .sendKeyboardReport mods => held.send mods
  | .magicNkro nkro mods => { { held with keys := ∅ }.send mods with nkro := nkro held.nkro }
  | .setProtocol protocol => { held with keyboardProtocol := protocol, nkro := protocol }

end Held

/-- The host does not turn the bits of held keys into key codes or the other way round. -/
def Calm (held : Held) : Op → Prop
  | .setProtocol protocol => protocol = held.usesBits ∨ held.keys = ∅
  | _ => True

section Bits

variable {report : Raw} {keys : Finset Byte} {code : Byte}

/-- The bits are those of the keys. -/
def BitsHold (report : Raw) (keys : Finset Byte) : Prop := ∀ code, code ∈ keys ↔ InBits report code

theorem same_code {other : Byte} (group : code.toNat / 8 = other.toNat / 8)
    (bit : code.toNat % 8 = other.toNat % 8) : code = other :=
  BitVec.eq_of_toNat_eq (by omega)

theorem bitOf_getLsbD (code : Byte) (bit : ℕ) :
    (bitOf code).getLsbD bit = decide (code.toNat % 8 = bit) := by
  have small : code.toNat % 8 < 8 := Nat.mod_lt _ (by omega)
  simp [bitOf, BitVec.getLsbD_twoPow, small]

theorem bitsByte_inj {i j : Fin 30} : bitsByte i = bitsByte j ↔ i = j := by
  simp [bitsByte, Fin.ext_iff]

theorem inBits_update (room : code.toNat < 240) (value : Byte) (other : Byte) :
    InBits (Function.update report (bitsByte (groupOf code room)) value) other ↔
      if other.toNat / 8 = code.toNat / 8 then value.getLsbD (other.toNat % 8) = true
      else InBits report other := by
  by_cases same : other.toNat / 8 = code.toNat / 8
  · have fits : other.toNat < 240 := by omega
    have place : groupOf other fits = groupOf code room := Fin.ext same
    rw [if_pos same]
    constructor
    · rintro ⟨room', bit⟩
      rwa [place, Function.update_self] at bit
    · intro bit
      refine ⟨fits, ?_⟩
      rwa [place, Function.update_self]
  · rw [if_neg same]
    refine exists_congr fun fits => ?_
    have apart : bitsByte (groupOf other fits) ≠ bitsByte (groupOf code room) :=
      fun equal => same (congrArg Fin.val (bitsByte_inj.mp equal))
    rw [Function.update_of_ne apart]

/-- The keys of one byte differ in the bit. -/
theorem inBits_group {other : Byte} (room : code.toNat < 240)
    (group : other.toNat / 8 = code.toNat / 8) : InBits report other ↔
      (report (bitsByte (groupOf code room))).getLsbD (other.toNat % 8) = true := by
  have fits : other.toNat < 240 := by omega
  have place : groupOf other fits = groupOf code room := Fin.ext group
  rw [← place]
  constructor
  · rintro ⟨_, bit⟩
    exact bit
  · intro bit
    exact ⟨fits, bit⟩

theorem BitsHold.add (holds : BitsHold report keys) (room : code.toNat < 240) :
    BitsHold (addKeyBit code report) (insert code keys) := by
  intro other
  rw [addKeyBit, dif_pos room, inBits_update room, Finset.mem_insert, holds other]
  by_cases group : other.toNat / 8 = code.toNat / 8
  · rw [if_pos group, BitVec.getLsbD_or, Bool.or_eq_true, bitOf_getLsbD, decide_eq_true_eq,
      inBits_group room group, or_comm]
    apply or_congr Iff.rfl
    constructor
    · intro equal
      rw [equal]
    · intro bit
      exact same_code group bit.symm
  · rw [if_neg group]
    refine ⟨fun either => either.resolve_left fun equal => group (by rw [equal]), .inr⟩

theorem BitsHold.del (holds : BitsHold report keys) :
    BitsHold (delKeyBit code report) (keys.erase code) := by
  intro other
  rw [Finset.mem_erase, holds other, delKeyBit]
  by_cases room : code.toNat < 240
  · rw [dif_pos room, inBits_update room]
    by_cases group : other.toNat / 8 = code.toNat / 8
    · have small : other.toNat % 8 < 8 := Nat.mod_lt _ (by omega)
      rw [if_pos group, BitVec.getLsbD_and, BitVec.getLsbD_not, bitOf_getLsbD,
        inBits_group room group, and_comm]
      simp only [small, decide_true, Bool.true_and, Bool.and_eq_true, Bool.not_eq_true',
        decide_eq_false_iff_not]
      apply and_congr Iff.rfl
      apply not_congr
      constructor
      · intro equal
        rw [equal]
      · intro bit
        exact same_code group bit.symm
    · rw [if_neg group]
      exact ⟨And.right, fun bit => ⟨fun equal => group (by rw [equal]), bit⟩⟩
  · rw [dif_neg room]
    exact ⟨And.right, fun bit => ⟨fun equal => room (equal ▸ bit.1), bit⟩⟩

end Bits

section Slots

variable {build : Build} {report : Raw} {keys : Finset Byte} {code : Byte}

/-- The slots hold the keys, each of them once, and the bits that are no slots are clear. -/
structure SlotsHold (build : Build) (report : Raw) (keys : Finset Byte) : Prop where
  shown : usages (fun i => report (keyByte build i)) = keys
  once : ∀ i j, report (keyByte build i) = report (keyByte build j) →
    report (keyByte build i) ≠ 0 → i = j
  rest : ∀ place : Fin 32, 2 ≤ place.val → (∀ i, place ≠ keyByte build i) → report place = 0

theorem keyByte_inj {i j : Slot} : keyByte build i = keyByte build j ↔ i = j := by
  simp [keyByte, Fin.ext_iff]

theorem mem_usages {slots : Slot → Byte} :
    code ∈ usages slots ↔ code ≠ 0 ∧ ∃ i, slots i = code := by
  simp [usages]

theorem findEmpty_eq (slots : Slot → Byte) (code : Byte) (rest : List Slot) (empty : Option Slot) :
    findEmpty slots code rest empty =
      if ∃ i ∈ rest, slots i = code then none
      else some (empty.or (rest.find? fun i => slots i = 0)) := by
  induction rest generalizing empty with
  | nil => simp [findEmpty]
  | cons i rest ih =>
    rw [findEmpty]
    by_cases here : slots i = code
    · rw [if_pos here, if_pos ⟨i, List.mem_cons_self, here⟩]
    · rw [if_neg here, ih]
      have later : (∃ j ∈ i :: rest, slots j = code) ↔ ∃ j ∈ rest, slots j = code := by
        simp [here]
      simp only [later]
      cases empty <;> by_cases zero : slots i = 0#8 <;> simp [zero]

theorem SlotsHold.full_iff (holds : SlotsHold build report keys) :
    keys.card < 6 ↔ ∃ i, report (keyByte build i) = 0 := by
  let filled := Finset.univ.filter fun i => report (keyByte build i) ≠ 0
  have image : keys = filled.image fun i => report (keyByte build i) := by
    rw [← holds.shown]
    ext code
    rw [mem_usages, Finset.mem_image]
    constructor
    · rintro ⟨nonzero, i, rfl⟩
      exact ⟨i, Finset.mem_filter.mpr ⟨Finset.mem_univ i, nonzero⟩, rfl⟩
    · rintro ⟨i, member, rfl⟩
      exact ⟨(Finset.mem_filter.mp member).2, i, rfl⟩
  have count : keys.card = filled.card := by
    rw [image]
    apply Finset.card_image_of_injOn
    intro i member j _ equal
    exact holds.once i j equal (Finset.mem_filter.mp member).2
  rw [count]
  constructor
  · intro few
    by_contra none
    have all : filled = Finset.univ :=
      Finset.filter_true_of_mem fun i _ zero => none ⟨i, zero⟩
    rw [all, Finset.card_univ, Fintype.card_fin] at few
    exact Nat.lt_irrefl 6 few
  · rintro ⟨i, zero⟩
    have absent : i ∉ filled := fun member => (Finset.mem_filter.mp member).2 zero
    exact lt_of_lt_of_eq (Finset.card_lt_univ_of_notMem absent) (Fintype.card_fin 6)

theorem SlotsHold.add (holds : SlotsHold build report keys) (nonzero : code ≠ 0) :
    SlotsHold build (addKeyByte build code report)
      (if keys.card < 6 then insert code keys else keys) := by
  rw [addKeyByte, findEmpty_eq]
  by_cases present : ∃ i ∈ List.finRange 6, report (keyByte build i) = code
  · obtain ⟨i, -, here⟩ := present
    have member : code ∈ keys := by
      rw [← holds.shown]
      exact mem_usages.mpr ⟨nonzero, i, here⟩
    rw [if_pos ⟨i, List.mem_finRange i, here⟩, Finset.insert_eq_self.mpr member, ite_self]
    exact holds
  · rw [if_neg present, Option.none_or]
    have absent (i : Slot) : report (keyByte build i) ≠ code :=
      fun here => present ⟨i, List.mem_finRange i, here⟩
    cases found : (List.finRange 6).find? fun i => report (keyByte build i) = 0 with
    | none =>
      have full : ¬keys.card < 6 := by
        rw [holds.full_iff]
        rintro ⟨i, zero⟩
        have none := List.find?_eq_none.mp found i (List.mem_finRange i)
        exact none (decide_eq_true zero)
      rw [if_neg full]
      exact holds
    | some empty =>
      have zero : report (keyByte build empty) = 0 := by simpa using List.find?_some found
      rw [if_pos (holds.full_iff.mpr ⟨empty, zero⟩)]
      show SlotsHold build (Function.update report (keyByte build empty) code) (insert code keys)
      have slot (i : Slot) : Function.update report (keyByte build empty) code (keyByte build i) =
          if i = empty then code else report (keyByte build i) := by
        by_cases same : i = empty
        · rw [same, if_pos rfl, Function.update_self]
        · rw [if_neg same, Function.update_of_ne (mt keyByte_inj.mp same)]
      refine ⟨?_, ?_, ?_⟩
      · ext other
        simp only [mem_usages, slot, Finset.mem_insert, ← holds.shown]
        constructor
        · rintro ⟨some, i, here⟩
          split at here
          · exact .inl here.symm
          · exact .inr ⟨some, i, here⟩
        · rintro (rfl | ⟨some, i, here⟩)
          · exact ⟨nonzero, empty, if_pos rfl⟩
          · refine ⟨some, i, ?_⟩
            rw [if_neg, here]
            rintro rfl
            exact some (here.symm.trans zero)
      · intro i j equal some
        rw [slot] at equal some
        rw [slot] at equal
        split at equal <;> split at equal
        · next first second => rw [first, second]
        · next first second => exact absurd equal.symm (absent j)
        · next first second => exact absurd equal (absent i)
        · next first second => exact holds.once i j equal (by rwa [if_neg first] at some)
      · intro place low apart
        rw [Function.update_of_ne (apart empty)]
        exact holds.rest place low apart

theorem delFrom_apply (nonzero : code ≠ 0) (slots : List Slot) (report : Raw) (place : Fin 32) :
    delFrom build code slots report place =
      if (∃ i ∈ slots, place = keyByte build i) ∧ report place = code then 0 else report place := by
  induction slots generalizing report with
  | nil => simp [delFrom]
  | cons i rest ih =>
    rw [delFrom, ih]
    by_cases here : report (keyByte build i) = code
    · rw [if_pos here]
      by_cases same : place = keyByte build i
      · subst same
        simp [here, nonzero.symm]
      · simp [Function.update_of_ne same, same]
    · rw [if_neg here]
      by_cases same : place = keyByte build i
      · subst same
        simp [here]
      · simp [same]

theorem SlotsHold.del (holds : SlotsHold build report keys) (nonzero : code ≠ 0) :
    SlotsHold build (delKeyByte build code report) (keys.erase code) := by
  have slot (i : Slot) : delKeyByte build code report (keyByte build i) =
      if report (keyByte build i) = code then 0 else report (keyByte build i) := by
    rw [delKeyByte, delFrom_apply nonzero]
    simp [List.mem_finRange]
  refine ⟨?_, ?_, ?_⟩
  · ext other
    simp only [mem_usages, slot, Finset.mem_erase, ← holds.shown]
    constructor
    · rintro ⟨some, i, here⟩
      split at here
      · exact absurd here.symm some
      · next apart => exact ⟨fun equal => apart (here.trans equal), some, i, here⟩
    · rintro ⟨apart, some, i, here⟩
      exact ⟨some, i, by rw [if_neg (here ▸ apart), here]⟩
  · intro i j equal some
    simp only [slot] at equal some
    split at some
    · exact absurd rfl some
    · next first =>
      rw [if_neg first] at equal
      split at equal
      · exact absurd equal some
      · exact holds.once i j equal some
  · intro place low apart
    rw [delKeyByte, delFrom_apply nonzero, if_neg, holds.rest place low apart]
    rintro ⟨⟨i, -, same⟩, -⟩
    exact apart i same

end Slots

section Packets

variable {build : Build} {report after : Raw} {keys : Finset Byte}

/-- The bits that both protocols share are clear. -/
def Blank (report : Raw) : Prop := ∀ place : Fin 32, 2 ≤ place.val → report place = 0

/-- Only the report id and the modifiers before the bits change. -/
def SameKeys (report after : Raw) : Prop :=
  ∀ place : Fin 32, 2 ≤ place.val → after place = report place

theorem two_le_bits (i : Fin 30) : 2 ≤ (bitsByte i).val := Nat.le_add_right 2 i

theorem two_le_key (build : Build) (i : Slot) : 2 ≤ (keyByte build i).val := by
  show 2 ≤ build.modsAt + 2 + i.val
  omega

theorem BitsHold.congr (holds : BitsHold report keys) (same : SameKeys report after) :
    BitsHold after keys := by
  intro code
  rw [holds code]
  refine exists_congr fun room => ?_
  rw [same _ (two_le_bits _)]

theorem SlotsHold.congr (holds : SlotsHold build report keys) (same : SameKeys report after) :
    SlotsHold build after keys := by
  have slots (i : Slot) : after (keyByte build i) = report (keyByte build i) :=
    same _ (two_le_key build i)
  refine ⟨?_, ?_, ?_⟩
  · simp only [slots]
    exact holds.shown
  · intro i j
    rw [slots, slots]
    exact holds.once i j
  · intro place low apart
    rw [same place low]
    exact holds.rest place low apart

theorem Blank.bits (blank : Blank report) : BitsHold report ∅ := by
  intro code
  refine iff_of_false (Finset.notMem_empty code) ?_
  rintro ⟨room, bit⟩
  rw [blank _ (two_le_bits _)] at bit
  simp at bit

theorem Blank.slots (blank : Blank report) : SlotsHold build report ∅ := by
  have slots (i : Slot) : report (keyByte build i) = 0 := blank _ (two_le_key build i)
  refine ⟨?_, fun i j _ some => absurd (slots i) some, fun place low _ => blank place low⟩
  ext code
  rw [mem_usages]
  refine iff_of_false ?_ (Finset.notMem_empty code)
  rintro ⟨some, i, here⟩
  exact some (here.symm.trans (slots i))

theorem BitsHold.blank (holds : BitsHold report ∅) : Blank report := by
  intro place low
  apply BitVec.eq_of_getLsbD_eq
  intro bit small
  have bound := place.isLt
  let code : Byte := BitVec.ofNat 8 ((place.val - 2) * 8 + bit)
  have value : code.toNat = (place.val - 2) * 8 + bit := by
    rw [BitVec.toNat_ofNat]
    omega
  have room : code.toNat < 240 := by omega
  have there : bitsByte (groupOf code room) = place := by
    apply Fin.ext
    show 2 + code.toNat / 8 = place.val
    omega
  have clear : ¬InBits report code := mt (holds code).mpr (Finset.notMem_empty code)
  have unset : ¬(report place).getLsbD bit = true := by
    intro set
    refine clear ⟨room, ?_⟩
    have same : code.toNat % 8 = bit := by omega
    rw [there, same]
    exact set
  exact (Bool.eq_false_iff.mpr unset).trans (BitVec.getLsbD_zero).symm

theorem SlotsHold.blank (holds : SlotsHold build report ∅) : Blank report := by
  intro place low
  by_cases slot : ∃ i, place = keyByte build i
  · obtain ⟨i, rfl⟩ := slot
    by_contra some
    have shown : report (keyByte build i) ∈ usages fun i => report (keyByte build i) :=
      mem_usages.mpr ⟨some, i, rfl⟩
    rw [holds.shown] at shown
    exact Finset.notMem_empty _ shown
  · exact holds.rest place low fun i same => slot ⟨i, same⟩

theorem modsByte_low (build : Build) : (modsByte build).val < 2 :=
  Nat.lt_succ_of_le build.modsAt_le

theorem sameKeys_update {place : Fin 32} (low : place.val < 2) (value : Byte)
    (same : SameKeys report after) : SameKeys report (Function.update after place value) := by
  intro other high
  rw [Function.update_of_ne, same other high]
  rintro rfl
  exact Nat.not_le.mpr low high

end Packets

section Runs

variable {build : Build} {s : State build} {held : Held}

/-- The report holds the keys in the protocol in use, and the host has read every report. -/
structure Carries (held : Held) (s : State build) : Prop where
  protocol : s.keyboardProtocol = held.keyboardProtocol
  nkro : s.nkro = held.nkro
  bits : s.usesBits = true → BitsHold s.report held.keys
  slots : s.usesBits = false → SlotsHold build s.report held.keys
  sent : s.sent.map Packet.read = held.reports.map some

theorem Carries.uses (carries : Carries held s) : s.usesBits = held.usesBits := by
  rw [State.usesBits, Held.usesBits, carries.protocol, carries.nkro]

/-- A report of the bits reads as the modifiers and the keys, whatever its first bytes were. -/
theorem Carries.sendBits (carries : Carries held s) (uses : s.usesBits = true) (mods : Byte)
    {report : Raw} (same : SameKeys s.report report) (isNkro : report 0 = reportIdNkro)
    (isMods : report 1 = mods) :
    Carries (held.send mods) { s with report := report, sent := s.sent ++ [.nkro report] } := by
  have bits := (carries.bits uses).congr same
  have read : (Packet.nkro report : Packet build).read =
      some { mods := mods, keys := held.keys } := by
    have keys : Finset.univ.filter (InBits report) = held.keys := by
      ext code
      rw [Finset.mem_filter_univ, bits code]
    rw [Packet.read, if_pos isNkro, isMods, keys]
  refine ⟨carries.protocol, carries.nkro, fun _ => bits, fun off => ?_, ?_⟩
  · exact absurd (uses.symm.trans off) (by decide)
  · rw [List.map_append, carries.sent, List.map_singleton, read, Held.send, List.map_append,
      List.map_singleton]

/-- A report of the slots reads so too, in the boot protocol without the report id. -/
theorem Carries.sendSlots (carries : Carries held s) (unused : s.usesBits = false) (mods : Byte)
    {report : Raw} (same : SameKeys s.report report) (isMods : report (modsByte build) = mods)
    (isReport : build.keyboardSharedEp = true → report 0 = reportIdKeyboard) :
    Carries (held.send mods) { s with
      report := report
      sent := s.sent ++ [if s.keyboardProtocol then
        .keyboard fun i => report ⟨i, by have := build.modsAt_le; omega⟩
      else .boot fun i => report ⟨build.modsAt + i, by have := build.modsAt_le; omega⟩] } := by
  have slots := (carries.slots unused).congr same
  have read : Packet.read (if s.keyboardProtocol then
        .keyboard fun i => report ⟨i, by have := build.modsAt_le; omega⟩
      else .boot fun i => report ⟨build.modsAt + i, by have := build.modsAt_le; omega⟩ :
        Packet build) =
      some { mods := report (modsByte build)
             keys := usages fun i => report (keyByte build i) } := by
    split
    · exact if_pos isReport
    · rfl
  refine ⟨carries.protocol, carries.nkro, fun on => ?_, fun _ => slots, ?_⟩
  · exact absurd (on.symm.trans unused) (by decide)
  · rw [List.map_append, carries.sent, List.map_singleton, read, isMods, slots.shown, Held.send,
      List.map_append, List.map_singleton]

theorem Carries.send (carries : Carries held s) (mods : Byte) :
    Carries (held.send mods) (sendKeyboardReport mods s) := by
  let written := Function.update s.report (modsByte build) mods
  have same : SameKeys s.report written :=
    sameKeys_update (modsByte_low build) mods fun _ _ => rfl
  have isMods : written (modsByte build) = mods := Function.update_self ..
  have sends : sendKeyboardReport mods s = hostKeyboardSend { s with report := written } := rfl
  have kept : State.usesBits { s with report := written } = s.usesBits := rfl
  rw [sends, hostKeyboardSend, kept]
  cases uses : s.usesBits with
  | true =>
    rw [if_pos rfl]
    refine carries.sendBits uses mods ?_ (Function.update_self ..) ?_
    · exact sameKeys_update (by decide) _ (sameKeys_update (by decide) _ same)
    · rw [Function.update_of_ne (by decide), Function.update_self]
      exact isMods
  | false =>
    rw [if_neg Bool.false_ne_true]
    cases shared : build.keyboardSharedEp with
    | true =>
      have apart : modsByte build ≠ 0 := by
        intro zero
        have value : build.modsAt = 0 := congrArg Fin.val zero
        rw [Build.modsAt, shared] at value
        exact absurd value (by decide)
      rw [if_pos rfl]
      refine carries.sendSlots uses mods (sameKeys_update (by decide) _ same) ?_
        fun _ => Function.update_self ..
      exact (Function.update_of_ne apart ..).trans isMods
    | false =>
      refine carries.sendSlots uses mods same isMods fun on => ?_
      exact absurd (shared.symm.trans on) (by decide)

theorem Carries.clear (carries : Carries held s) :
    Carries { held with keys := ∅ } (clearKeysFromReport s) := by
  have same : (clearKeysFromReport s).usesBits = s.usesBits := rfl
  refine ⟨carries.protocol, carries.nkro, fun uses => ?_, fun unused => ?_, carries.sent⟩
  · rw [same] at uses
    apply Blank.bits
    intro place low
    simp only [clearKeysFromReport, uses, if_true, low]
  · rw [same] at unused
    have slots := carries.slots unused
    apply Blank.slots
    intro place low
    simp only [clearKeysFromReport, unused, Bool.false_eq_true, if_false]
    split
    · rfl
    · next outside =>
      apply slots.rest place low
      rintro i rfl
      have below := i.isLt
      have value : (keyByte build i).val = build.modsAt + 2 + i.val := rfl
      omega

/-- Without keys both protocols have the same report. -/
theorem Carries.blank (carries : Carries held s) (none : held.keys = ∅) : Blank s.report := by
  cases on : s.usesBits with
  | true =>
    have bits := carries.bits on
    rw [none] at bits
    exact bits.blank
  | false =>
    have slots := carries.slots on
    rw [none] at slots
    exact slots.blank

theorem Carries.of_blank (blank : Blank s.report) (none : held.keys = ∅)
    (protocol : s.keyboardProtocol = held.keyboardProtocol) (nkro : s.nkro = held.nkro)
    (sent : s.sent.map Packet.read = held.reports.map some) : Carries held s := by
  refine ⟨protocol, nkro, fun _ => ?_, fun _ => ?_, sent⟩
  · rw [none]
    exact blank.bits
  · rw [none]
    exact blank.slots

theorem Carries.addKey (carries : Carries held s) (key : KeyCode) :
    Carries (held.exec (.addKey key)) (addKeyToReport key.1 s) := by
  have sameUse : (addKeyToReport key.1 s).usesBits = s.usesBits := rfl
  have keys : (held.exec (.addKey key)).keys =
      if held.hasRoom key.1 then insert key.1 held.keys else held.keys := by
    rw [Held.exec]
    split <;> rfl
  have others : (held.exec (.addKey key)).keyboardProtocol = held.keyboardProtocol ∧
      (held.exec (.addKey key)).nkro = held.nkro ∧
      (held.exec (.addKey key)).reports = held.reports := by
    rw [Held.exec]
    split <;> exact ⟨rfl, rfl, rfl⟩
  obtain ⟨protocol, nkro, reports⟩ := others
  refine ⟨carries.protocol.trans protocol.symm, carries.nkro.trans nkro.symm, fun on => ?_,
    fun off => ?_, ?_⟩
  · rw [sameUse] at on
    have room : held.hasRoom key.1 ↔ key.1.toNat < 240 := by
      rw [Held.hasRoom, if_pos (carries.uses.symm.trans on)]
    have report : (addKeyToReport key.1 s).report = addKeyBit key.1 s.report := if_pos on
    rw [report, keys]
    split
    · next fits => exact (carries.bits on).add (room.mp fits)
    · next full =>
      rw [addKeyBit, dif_neg (mt room.mpr full)]
      exact carries.bits on
  · rw [sameUse] at off
    have unused : ¬s.usesBits = true := Bool.eq_false_iff.mp off
    have room : held.hasRoom key.1 ↔ held.keys.card < 6 := by
      rw [Held.hasRoom, if_neg (carries.uses ▸ unused)]
    have report : (addKeyToReport key.1 s).report = addKeyByte build key.1 s.report :=
      if_neg unused
    rw [report, keys]
    simp only [room]
    exact (carries.slots off).add key.2
  · rw [reports]
    exact carries.sent

theorem Carries.delKey (carries : Carries held s) (key : KeyCode) :
    Carries (held.exec (.delKey key)) (delKeyFromReport key.1 s) := by
  have sameUse : (delKeyFromReport key.1 s).usesBits = s.usesBits := rfl
  refine ⟨carries.protocol, carries.nkro, fun on => ?_, fun off => ?_, carries.sent⟩
  · rw [sameUse] at on
    have report : (delKeyFromReport key.1 s).report = delKeyBit key.1 s.report := if_pos on
    rw [report]
    exact (carries.bits on).del
  · rw [sameUse] at off
    have report : (delKeyFromReport key.1 s).report = delKeyByte build key.1 s.report :=
      if_neg (Bool.eq_false_iff.mp off)
    rw [report]
    exact (carries.slots off).del key.2

/-- The keys are cleared and sent before `nkro` changes. -/
theorem Carries.magicNkro (carries : Carries held s) (nkro : Bool → Bool) (mods : Byte) :
    Carries (held.exec (.magicNkro nkro mods)) (Usb.magicNkro nkro mods s) := by
  have cleared := carries.clear.send mods
  have blank : Blank (Usb.magicNkro nkro mods s).report := cleared.blank rfl
  refine Carries.of_blank blank rfl cleared.protocol ?_ cleared.sent
  show nkro s.nkro = nkro held.nkro
  rw [carries.nkro]

theorem Carries.setProtocol (carries : Carries held s) {protocol : Bool}
    (calm : protocol = held.usesBits ∨ held.keys = ∅) :
    Carries (held.exec (.setProtocol protocol)) (Usb.setProtocol protocol s) := by
  rcases calm with same | none
  · have after : (Usb.setProtocol protocol s).usesBits = protocol := Bool.and_self protocol
    have kept : s.usesBits = protocol := carries.uses.trans same.symm
    refine ⟨rfl, rfl, fun on => ?_, fun off => ?_, carries.sent⟩
    · exact carries.bits (kept.trans (after.symm.trans on))
    · exact carries.slots (kept.trans (after.symm.trans off))
  · exact Carries.of_blank (carries.blank none) none rfl rfl carries.sent

theorem Carries.exec (carries : Carries held s) (op : Op) (calm : Calm held op) :
    Carries (held.exec op) (op.exec s) := by
  cases op with
  | addKey key => exact carries.addKey key
  | delKey key => exact carries.delKey key
  | clearKeys => exact carries.clear
  | sendKeyboardReport mods => exact carries.send mods
  | magicNkro nkro mods => exact carries.magicNkro nkro mods
  | setProtocol protocol => exact carries.setProtocol calm

theorem Carries.pressed (carries : Carries held s) (key : KeyCode) :
    isKeyPressed s key.1 = true ↔ key.1 ∈ held.keys := by
  rw [isKeyPressed, if_neg key.2]
  by_cases on : s.usesBits = true
  · rw [if_pos on, carries.bits on key.1]
    by_cases room : key.1.toNat < 240
    · have small : key.1.toNat % 8 < 8 := Nat.mod_lt _ (by omega)
      rw [dif_pos room, decide_eq_true_eq, bitOf, BitVec.and_twoPow]
      constructor
      · intro set
        refine ⟨room, ?_⟩
        by_contra clear
        exact set (if_neg clear)
      · rintro ⟨_, bit⟩ zero
        rw [if_pos bit] at zero
        have value := congrArg (BitVec.getLsbD · (key.1.toNat % 8)) zero
        simp [BitVec.getLsbD_twoPow, small] at value
    · rw [dif_neg room]
      exact iff_of_false Bool.false_ne_true fun ⟨fits, _⟩ => room fits
  · rw [if_neg on, List.any_eq_true, ← (carries.slots (Bool.eq_false_iff.mpr on)).shown,
      mem_usages]
    constructor
    · rintro ⟨i, -, here⟩
      exact ⟨key.2, i, of_decide_eq_true here⟩
    · rintro ⟨-, i, here⟩
      exact ⟨i, List.mem_finRange i, decide_eq_true here⟩

theorem Carries.anykey (carries : Carries held s) : 0 < hasAnykey s ↔ held.keys.Nonempty := by
  rw [hasAnykey]
  by_cases on : s.usesBits = true
  · rw [if_pos on, List.countP_pos_iff]
    constructor
    · rintro ⟨i, -, some⟩
      by_contra none
      have blank := carries.blank (Finset.not_nonempty_iff_eq_empty.mp none)
      exact of_decide_eq_true some (blank _ (two_le_bits i))
    · rintro ⟨code, member⟩
      obtain ⟨room, bit⟩ := (carries.bits on code).mp member
      refine ⟨groupOf code room, List.mem_finRange _, decide_eq_true ?_⟩
      intro zero
      rw [zero] at bit
      simp at bit
  · rw [if_neg on, List.countP_pos_iff]
    have slots := carries.slots (Bool.eq_false_iff.mpr on)
    constructor
    · rintro ⟨i, -, some⟩
      refine ⟨s.report (keyByte build i), ?_⟩
      rw [← slots.shown]
      exact mem_usages.mpr ⟨of_decide_eq_true some, i, rfl⟩
    · rintro ⟨code, member⟩
      rw [← slots.shown] at member
      obtain ⟨some, i, here⟩ := mem_usages.mp member
      exact ⟨i, List.mem_finRange i, decide_eq_true (here ▸ some)⟩

theorem carries_start (build : Build) (nkro : Bool) :
    Carries { nkro := nkro } ({ nkro := nkro } : State build) := by
  have blank : Blank fun _ => 0 := fun _ _ => rfl
  exact Carries.of_blank blank rfl rfl rfl rfl

/-- In every run in which the host does not change the protocol over held keys, it reads of
each packet just the modifiers and the keys that were held when it was sent, in either
protocol and behind every change between them: all keys with a bit of their own, or the six
that found room. The firmware reads the same keys back. -/
theorem host_reads_held_keys (build : Build) (nkro : Bool) (ops : List Op)
    (calm : Along Held.exec Calm { nkro := nkro } ops) :
    let s := run Op.exec ({ nkro := nkro } : State build) ops
    let held := run Held.exec { nkro := nkro } ops
    s.sent.map Packet.read = held.reports.map some ∧
      (∀ key : KeyCode, isKeyPressed s key.1 = true ↔ key.1 ∈ held.keys) ∧
      (0 < hasAnykey s ↔ held.keys.Nonempty) := by
  intro s held
  have keeps (held : Held) (s : State build) (op : Op) (carries : Carries held s)
      (calm : Calm held op) : Carries (held.exec op) (op.exec s) := carries.exec op calm
  have carries : Carries held s := run_simulates keeps (carries_start build nkro) calm
  exact ⟨carries.sent, carries.pressed, carries.anykey⟩

/-- A key is held on both sides of a change of the protocol that is made without it. -/
theorem key_read_in_both_protocols :
    let build : Build := { keyboardSharedEp := false }
    let ops : List Op := [.addKey ⟨4, by decide⟩, .sendKeyboardReport 2, .delKey ⟨4, by decide⟩,
      .setProtocol false, .addKey ⟨4, by decide⟩, .sendKeyboardReport 0]
    (run Op.exec ({ nkro := true } : State build) ops).sent.map Packet.read =
      [some { mods := 2, keys := {4} }, some { mods := 0, keys := {4} }] := by
  intro build ops
  have reads := host_reads_held_keys build true ops
    ⟨trivial, trivial, trivial, .inr (by decide), trivial, trivial, trivial⟩
  exact reads.1

/-- The bit of a held key is a key code in the boot protocol. -/
example : isKeyPressed (run Op.exec ({ nkro := true } : State { keyboardSharedEp := false })
    [.addKey ⟨4, by decide⟩, .setProtocol false]) 16 = true := by decide

end Runs

end QmkSonix.Usb
