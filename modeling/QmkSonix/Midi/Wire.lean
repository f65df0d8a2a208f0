import Mathlib

/-! MIDI as bytes: the senders of `midi.c` and the parser of `midi_device.c`. Every
callback of the device is registered but the two that take any message; what the
parser does not know goes to `fallthrough`. -/

namespace QmkSonix.Midi.Wire

abbrev Byte := BitVec 8

def sysexBegin : Byte := 0xF0
def sysexEnd : Byte := 0xF7
def midiStatusmask : Byte := 0x80
def midiChanmask : Byte := 0x0F
def midiCc : Byte := 0xB0
def midiNoteon : Byte := 0x90
def midiNoteoff : Byte := 0x80
def midiAftertouch : Byte := 0xA0
def midiPitchbend : Byte := 0xE0
def midiProgchange : Byte := 0xC0
def midiChanpressure : Byte := 0xD0
def midiClock : Byte := 0xF8
def midiTick : Byte := 0xF9
def midiStart : Byte := 0xFA
def midiContinue : Byte := 0xFB
def midiStop : Byte := 0xFC
def midiActivesense : Byte := 0xFE
def midiReset : Byte := 0xFF
def midiTcQuarterframe : Byte := 0xF1
def midiSongposition : Byte := 0xF2
def midiSongselect : Byte := 0xF3
def midiTunerequest : Byte := 0xF6

/-- `midi_packet_length_t` -/
inductive PacketLength where
  | undefined
  | one
  | two
  | three
  deriving DecidableEq, Repr

def midiIsStatusbyte (byte : Byte) : Bool := byte &&& midiStatusmask ≠ 0

def midiIsRealtime (byte : Byte) : Bool := midiClock ≤ byte

def midiPacketLength (status : Byte) : PacketLength :=
  if status &&& 0xF0 ∈ [midiCc, midiNoteon, midiNoteoff, midiAftertouch, midiPitchbend] then .three
  else if status &&& 0xF0 ∈ [midiProgchange, midiChanpressure, midiSongselect] then .two
  else if status &&& 0xF0 = 0xF0 then
    if status ∈ [midiClock, midiTick, midiStart, midiContinue, midiStop, midiActivesense,
        midiReset, midiTunerequest] then .one
    else if status = midiSongposition then .three
    else if status = midiTcQuarterframe ∨ status = midiSongselect then .two
    else .undefined
  else .undefined

/-! ### Senders -/

/-- What `send_func` is called with. -/
structure Packet where
  count : BitVec 16
  byte0 : Byte
  byte1 : Byte
  byte2 : Byte
  deriving DecidableEq, Repr

def midiSendCc (chan num val : Byte) : Packet :=
  ⟨3, midiCc ||| (chan &&& midiChanmask), num &&& 0x7F, val &&& 0x7F⟩

def midiSendNoteon (chan num vel : Byte) : Packet :=
  ⟨3, midiNoteon ||| (chan &&& midiChanmask), num &&& 0x7F, vel &&& 0x7F⟩

def midiSendNoteoff (chan num vel : Byte) : Packet :=
  ⟨3, midiNoteoff ||| (chan &&& midiChanmask), num &&& 0x7F, vel &&& 0x7F⟩

def midiSendAftertouch (chan noteNum amt : Byte) : Packet :=
  ⟨3, midiAftertouch ||| (chan &&& midiChanmask), noteNum &&& 0x7F, amt &&& 0x7F⟩

/-- The `uAmt` of `midi_send_pitchbend`. -/
def bendAmount (amt : BitVec 16) : BitVec 16 :=
  if 0x1FFF < amt.toInt then 0x3FFF else if amt.toInt < -0x2000 then 0 else amt + 0x2000

def midiSendPitchbend (chan : Byte) (amt : BitVec 16) : Packet :=
  let uAmt := bendAmount amt
  ⟨3, midiPitchbend ||| (chan &&& midiChanmask), (uAmt &&& 0x7F).setWidth 8,
    (uAmt >>> 7 &&& 0x7F).setWidth 8⟩

def midiSendProgramchange (chan num : Byte) : Packet :=
  ⟨2, midiProgchange ||| (chan &&& midiChanmask), num &&& 0x7F, 0⟩

def midiSendChannelpressure (chan amt : Byte) : Packet :=
  ⟨2, midiChanpressure ||| (chan &&& midiChanmask), amt &&& 0x7F, 0⟩

def midiSendTcquarterframe (time : Byte) : Packet := ⟨2, midiTcQuarterframe, time &&& 0x7F, 0⟩

def midiSendSongposition (pos : BitVec 16) : Packet :=
  ⟨3, midiSongposition, (pos &&& 0x7F).setWidth 8, (pos >>> 7 &&& 0x7F).setWidth 8⟩

def midiSendSongselect (song : Byte) : Packet := ⟨2, midiSongselect, song &&& 0x7F, 0⟩

def midiSendTunerequest : Packet := ⟨1, midiTunerequest, 0, 0⟩

/-- The messages of one realtime byte: `midi_send_clock` and the like. -/
inductive Realtime where
  | clock
  | tick
  | start
  | continue
  | stop
  | activesense
  | reset
  deriving DecidableEq, Repr

def Realtime.byte : Realtime → Byte
  | .clock => midiClock
  | .tick => midiTick
  | .start => midiStart
  | .continue => midiContinue
  | .stop => midiStop
  | .activesense => midiActivesense
  | .reset => midiReset

def midiSendRealtime (realtime : Realtime) : Packet := ⟨1, realtime.byte, 0, 0⟩

/-- `midi_send_array`, by threes. -/
def midiSendArray : List Byte → List Packet
  | [] => []
  | [first] => [⟨1, first, 0, 0⟩]
  | [first, second] => [⟨2, first, second, 0⟩]
  | first :: second :: third :: rest => ⟨3, first, second, third⟩ :: midiSendArray rest

/-- The data of a system exclusive message. The whole message is counted in 16 bits. -/
structure Sysex where
  data : List (BitVec 7)
  fits : data.length + 2 < 2 ^ 16

/-- The bytes of a system exclusive message, as `midi_send_array` takes them. -/
def Sysex.array (sysex : Sysex) : List Byte :=
  sysexBegin :: sysex.data.map (BitVec.setWidth 8) ++ [sysexEnd]

/-- The calls of the senders. -/
inductive Sent where
  | cc (chan num val : Byte)
  | noteon (chan num vel : Byte)
  | noteoff (chan num vel : Byte)
  | aftertouch (chan noteNum amt : Byte)
  | pitchbend (chan : Byte) (amt : BitVec 16)
  | programchange (chan num : Byte)
  | channelpressure (chan amt : Byte)
  | tcquarterframe (time : Byte)
  | songposition (pos : BitVec 16)
  | songselect (song : Byte)
  | tunerequest
  | realtime (message : Realtime)
  | sysex (message : Sysex)

/-- The packets that a call sends. -/
def Sent.packets : Sent → List Packet
  | .cc chan num val => [midiSendCc chan num val]
  | .noteon chan num vel => [midiSendNoteon chan num vel]
  | .noteoff chan num vel => [midiSendNoteoff chan num vel]
  | .aftertouch chan noteNum amt => [midiSendAftertouch chan noteNum amt]
  | .pitchbend chan amt => [midiSendPitchbend chan amt]
  | .programchange chan num => [midiSendProgramchange chan num]
  | .channelpressure chan amt => [midiSendChannelpressure chan amt]
  | .tcquarterframe time => [midiSendTcquarterframe time]
  | .songposition pos => [midiSendSongposition pos]
  | .songselect song => [midiSendSongselect song]
  | .tunerequest => [midiSendTunerequest]
  | .realtime message => [midiSendRealtime message]
  | .sysex message => midiSendArray message.array

/-- The bytes of a packet that count. -/
def Packet.bytes (packet : Packet) : List Byte :=
  [packet.byte0, packet.byte1, packet.byte2].take packet.count.toNat

/-! ### The parser -/

/-- `input_state_t` -/
inductive InputState where
  | idle
  | oneByteMessage
  | twoByteMessage
  | threeByteMessage
  | sysexMessage
  deriving DecidableEq, Repr

/-- The fields of `MidiDevice` that the parser keeps. -/
structure Parser where
  inputState : InputState := .idle
  inputCount : BitVec 16 := 0
  inputBuffer : Fin 3 → Byte := fun _ => 0

/-- The calls of the input callbacks. -/
inductive Callback where
  | cc (chan num val : Byte)
  | noteon (chan num vel : Byte)
  | noteoff (chan num vel : Byte)
  | aftertouch (chan noteNum amt : Byte)
  | pitchbend (chan low high : Byte)
  | songposition (byte low high : Byte)
  | progchange (chan num : Byte)
  | chanpressure (chan amt : Byte)
  | songselect (byte song : Byte)
  | tcQuarterframe (byte time : Byte)
  | realtime (byte : Byte)
  | tunerequest (byte : Byte)
  | sysex (start : BitVec 16) (data : List Byte)
  | fallthrough (count : BitVec 16) (byte0 byte1 byte2 : Byte)
  deriving DecidableEq, Repr

def midiInputCallbacks (state : InputState) (cnt : BitVec 16) (byte0 byte1 byte2 : Byte) :
    Callback :=
  let kind := byte0 &&& 0xF0
  let chan := byte0 &&& 0x0F
  if state = .sysexMessage then
    let start : BitVec 16 := BitVec.ofNat 16 ((cnt.toNat - 1) / 3 * 3)
    .sysex start ([byte0, byte1, byte2].take ((cnt - start).setWidth 8).toNat)
  else if cnt = 3 then
    if kind = midiCc then .cc chan byte1 byte2
    else if kind = midiNoteon then .noteon chan byte1 byte2
    else if kind = midiNoteoff then .noteoff chan byte1 byte2
    else if kind = midiAftertouch then .aftertouch chan byte1 byte2
    else if kind = midiPitchbend then .pitchbend chan byte1 byte2
    else if byte0 = midiSongposition then .songposition byte0 byte1 byte2
    else .fallthrough cnt byte0 byte1 byte2
  else if cnt = 2 then
    if kind = midiProgchange then .progchange chan byte1
    else if kind = midiChanpressure then .chanpressure chan byte1
    else if byte0 = midiSongselect then .songselect byte0 byte1
    else if byte0 = midiTcQuarterframe then .tcQuarterframe byte0 byte1
    else .fallthrough cnt byte0 byte1 byte2
  else if cnt = 1 then
    if midiIsRealtime byte0 then .realtime byte0
    else if byte0 = midiTunerequest then .tunerequest byte0
    else .fallthrough cnt byte0 byte1 byte2
  else .fallthrough (if 3 < cnt then 0 else cnt) byte0 byte1 byte2

namespace Parser

scoped instance buffer_nonzero : NeZero 3 := ⟨by decide⟩

/-- `input_count % 3` -/
def place (p : Parser) : Fin 3 := ⟨p.inputCount.toNat % 3, Nat.mod_lt _ (by decide)⟩

/-- `device->input_buffer[device->input_count % 3] = input` with the count after it. -/
def store (p : Parser) (input : Byte) : Parser :=
  { p with
    inputBuffer := Function.update p.inputBuffer p.place input
    inputCount := p.inputCount + 1 }

/-- `midi_input_callbacks` with the buffer. -/
def call (p : Parser) : Callback :=
  midiInputCallbacks p.inputState p.inputCount (p.inputBuffer 0) (p.inputBuffer 1) (p.inputBuffer 2)

/-- The branch of `midi_process_byte` for a status byte. -/
def processStatus (p : Parser) (input : Byte) : Parser × List Callback :=
  let begun : Parser :=
    { p with
      inputBuffer := Function.update p.inputBuffer 0 input
      inputCount := 1 }
  let stored := if p.inputState ≠ .sysexMessage then begun else p
  match midiPacketLength input with
  | .one =>
    ({ stored with inputState := .idle }, [midiInputCallbacks .oneByteMessage 1 input 0 0])
  | .two => ({ stored with inputState := .twoByteMessage }, [])
  | .three => ({ stored with inputState := .threeByteMessage }, [])
  | .undefined =>
    if input = sysexBegin then ({ begun with inputState := .sysexMessage }, [])
    else if input = sysexEnd then
      let ended := stored.store input
      ({ ended with inputState := .idle }, [ended.call])
    else ({ stored with inputState := .idle, inputCount := 0 }, [])

/-- The branch for a data byte. -/
def processData (p : Parser) (input : Byte) : Parser × List Callback :=
  if p.inputState = .idle then (p, [])
  else
    let stored := p.store input
    let running := if p.inputState ≠ .sysexMessage then { stored with inputCount := 1 } else stored
    if p.place = 2 then (running, [stored.call])
    else if p.place = 1 ∧ p.inputState = .twoByteMessage then
      (running, [midiInputCallbacks p.inputState stored.inputCount (stored.inputBuffer 0)
        (stored.inputBuffer 1) 0])
    else (stored, [])

/-- `midi_process_byte` -/
def midiProcessByte (p : Parser) (input : Byte) : Parser × List Callback :=
  if midiIsRealtime input then (p, [midiInputCallbacks .oneByteMessage 1 input 0 0])
  else if midiIsStatusbyte input then p.processStatus input
  else p.processData input

/-- Bytes one after the other. -/
def hear (p : Parser) : List Byte → Parser × List Callback
  | [] => (p, [])
  | input :: rest =>
    let first := p.midiProcessByte input
    let later := first.1.hear rest
    (later.1, first.2 ++ later.2)

end Parser

/-! ### What is heard -/

/-- The chunks in which a system exclusive message is heard, from an offset on. -/
def chunks (start : ℕ) : List Byte → List Callback
  | [] => []
  | [first] => [.sysex (BitVec.ofNat 16 start) [first]]
  | [first, second] => [.sysex (BitVec.ofNat 16 start) [first, second]]
  | first :: second :: third :: rest =>
    .sysex (BitVec.ofNat 16 start) [first, second, third] :: chunks (start + 3) rest

/-- The callbacks that a sender's call is meant for. -/
def Sent.heard : Sent → List Callback
  | .cc chan num val => [.cc (chan &&& 0x0F) (num &&& 0x7F) (val &&& 0x7F)]
  | .noteon chan num vel => [.noteon (chan &&& 0x0F) (num &&& 0x7F) (vel &&& 0x7F)]
  | .noteoff chan num vel => [.noteoff (chan &&& 0x0F) (num &&& 0x7F) (vel &&& 0x7F)]
  | .aftertouch chan noteNum amt =>
    [.aftertouch (chan &&& 0x0F) (noteNum &&& 0x7F) (amt &&& 0x7F)]
  | .pitchbend chan amt =>
    [.pitchbend (chan &&& 0x0F) ((bendAmount amt).extractLsb' 0 7 |>.setWidth 8)
      ((bendAmount amt).extractLsb' 7 7 |>.setWidth 8)]
  | .programchange chan num => [.progchange (chan &&& 0x0F) (num &&& 0x7F)]
  | .channelpressure chan amt => [.chanpressure (chan &&& 0x0F) (amt &&& 0x7F)]
  | .tcquarterframe time => [.tcQuarterframe midiTcQuarterframe (time &&& 0x7F)]
  | .songposition pos => [.songposition midiSongposition ((pos.extractLsb' 0 7).setWidth 8)
      ((pos.extractLsb' 7 7).setWidth 8)]
  | .songselect song => [.songselect midiSongselect (song &&& 0x7F)]
  | .tunerequest => [.tunerequest midiTunerequest]
  | .realtime message => [.realtime message.byte]
  | .sysex message => chunks 0 message.array

/-- The bytes of a call on the wire. -/
def Sent.bytes (sent : Sent) : List Byte := sent.packets.flatMap Packet.bytes

namespace Parser

theorem hear_append (p : Parser) (first second : List Byte) :
    p.hear (first ++ second) = (((p.hear first).1.hear second).1,
      (p.hear first).2 ++ ((p.hear first).1.hear second).2) := by
  induction first generalizing p with
  | nil => rfl
  | cons input rest ih => simp [hear, ih, List.append_assoc]

end Parser

/-! ### Single messages -/

/-- A byte that is neither a status byte nor a realtime byte. -/
def IsData (byte : Byte) : Prop := midiIsRealtime byte = false ∧ midiIsStatusbyte byte = false

theorem isData_masked : ∀ byte : Byte, IsData (byte &&& 0x7F) := by
  unfold IsData
  decide +kernel

theorem isData_setWidth : ∀ bits : BitVec 7, IsData (bits.setWidth 8) := by
  unfold IsData
  decide +kernel

/-- A status byte that begins a message of a length. -/
structure Begins (status : Byte) (length : PacketLength) : Prop where
  notRealtime : midiIsRealtime status = false
  isStatus : midiIsStatusbyte status = true
  length : midiPacketLength status = length

namespace Parser

variable {p : Parser} {status first second : Byte}

/-- A status byte of a longer message waits for its data. -/
theorem processByte_begins {length : PacketLength} {state : InputState}
    (begins : Begins status length) (between : p.inputState ≠ .sysexMessage)
    (sized : (length = .two ∧ state = .twoByteMessage) ∨
      (length = .three ∧ state = .threeByteMessage)) :
    p.midiProcessByte status =
      ({ inputState := state
         inputCount := 1
         inputBuffer := Function.update p.inputBuffer 0 status }, []) := by
  have known := begins.length
  rcases sized with ⟨rfl, rfl⟩ | ⟨rfl, rfl⟩ <;>
    simp [midiProcessByte, begins.notRealtime, begins.isStatus, processStatus, known, between]

theorem processByte_data (data : IsData first) : p.midiProcessByte first = p.processData first := by
  simp [midiProcessByte, data.1, data.2]

/-- The first data byte behind a status byte. -/
theorem processData_first {state : InputState} {buffer : Fin 3 → Byte}
    (waits : state = .twoByteMessage ∨ state = .threeByteMessage) :
    ({ inputState := state, inputCount := 1, inputBuffer := buffer } : Parser).processData first =
      if state = .twoByteMessage then
        ({ inputState := state, inputCount := 1, inputBuffer := Function.update buffer 1 first },
          [midiInputCallbacks state 2 (buffer 0) first 0])
      else ({ inputState := state, inputCount := 2, inputBuffer := Function.update buffer 1 first },
        []) := by
  rcases waits with rfl | rfl <;> simp [processData, store, place]

theorem hear_two (begins : Begins status .two) (data : IsData first)
    (between : p.inputState ≠ .sysexMessage) :
    (p.hear [status, first]).1.inputState ≠ .sysexMessage ∧
      (p.hear [status, first]).2 = [midiInputCallbacks .twoByteMessage 2 status first 0] := by
  have begun := processByte_begins begins between (.inl ⟨rfl, rfl⟩)
  simp only [hear, begun, processByte_data data, processData_first (.inl rfl), if_true]
  simp

theorem hear_three (begins : Begins status .three) (data : IsData first) (data' : IsData second)
    (between : p.inputState ≠ .sysexMessage) :
    (p.hear [status, first, second]).1.inputState ≠ .sysexMessage ∧
      (p.hear [status, first, second]).2 =
        [midiInputCallbacks .threeByteMessage 3 status first second] := by
  have begun := processByte_begins begins between (.inr ⟨rfl, rfl⟩)
  simp only [hear, begun, processByte_data data, processData_first (.inr rfl), reduceCtorEq,
    if_false, processByte_data data']
  simp [processData, store, place, call]

theorem hear_one (begins : Begins status .one) (between : p.inputState ≠ .sysexMessage) :
    (p.hear [status]).1.inputState ≠ .sysexMessage ∧
      (p.hear [status]).2 = [midiInputCallbacks .oneByteMessage 1 status 0 0] := by
  simp [hear, midiProcessByte, begins.notRealtime, begins.isStatus, processStatus, begins.length,
    between]

theorem hear_realtime (realtime : midiIsRealtime status = true) :
    p.hear [status] = (p, [.realtime status]) := by
  have called : midiInputCallbacks .oneByteMessage 1 status 0 0 = .realtime status := by
    simp [midiInputCallbacks, realtime]
  simp only [hear, midiProcessByte, realtime, if_true, called, List.append_nil]

/-! ### System exclusive messages -/

theorem short_cases {list : List Byte} (short : list.length < 3) :
    list = [] ∨ (∃ byte0, list = [byte0]) ∨ ∃ byte0 byte1, list = [byte0, byte1] := by
  match list, short with
  | [], _ => exact .inl rfl
  | [byte0], _ => exact .inr (.inl ⟨byte0, rfl⟩)
  | [byte0, byte1], _ => exact .inr (.inr ⟨byte0, byte1, rfl⟩)

/-- Inside a system exclusive message of which a number of bytes have come: the
bytes since the last chunk are in the buffer. -/
structure InSysex (p : Parser) (passed : ℕ) (held : List Byte) : Prop where
  state : p.inputState = .sysexMessage
  count : p.inputCount = BitVec.ofNat 16 passed
  few : held.length = passed % 3
  buffer : ∀ i : Fin 3, ∀ byte ∈ held[i.val]?, p.inputBuffer i = byte

section Inside

variable {passed : ℕ} {held : List Byte}

theorem InSysex.place (inside : InSysex p passed held) (small : passed < 2 ^ 16) :
    p.place.val = held.length := by
  rw [Parser.place, inside.few]
  simp only [inside.count, BitVec.toNat_ofNat, Nat.mod_eq_of_lt small]

theorem InSysex.store (inside : InSysex p passed held) (small : passed + 1 < 2 ^ 16)
    (room : held.length < 2) : InSysex (p.store first) (passed + 1) (held ++ [first]) := by
  have place := inside.place (by omega)
  refine ⟨inside.state, ?_, ?_, ?_⟩
  · rw [Parser.store, inside.count]
    simp [BitVec.ofNat_add]
  · have few := inside.few
    rw [List.length_append, List.length_singleton]
    omega
  · intro i byte here
    rw [Parser.store]
    simp only
    by_cases last : i = p.place
    · rw [last, place] at here
      rw [last, Function.update_self]
      simpa using here
    · rw [Function.update_of_ne last]
      apply inside.buffer
      have before : i.val ≠ held.length := fun same => last (Fin.ext (same.trans place.symm))
      rw [List.getElem?_append] at here
      split at here
      · exact here
      · have outside : ([first] : List Byte)[i.val - held.length]? = none :=
          List.getElem?_eq_none (by simp; omega)
        rw [outside] at here
        cases here

/-- The chunk that is heard when the buffer is full or the message ends. -/
theorem InSysex.call (inside : InSysex p passed held) (small : passed + 1 < 2 ^ 16) :
    (p.store first).call =
      .sysex (BitVec.ofNat 16 (passed - held.length)) (held ++ [first]) := by
  have few := inside.few
  have place := inside.place (by omega)
  have count : (p.store first).inputCount.toNat = passed + 1 := by
    rw [Parser.store, inside.count]
    have one : (1 : BitVec 16).toNat = 1 := rfl
    simp only [BitVec.toNat_add, BitVec.toNat_ofNat, one]
    omega
  have start : (passed + 1 - 1) / 3 * 3 = passed - held.length := by omega
  have length : (((p.store first).inputCount -
      BitVec.ofNat 16 (passed - held.length)).setWidth 8).toNat = held.length + 1 := by
    simp only [BitVec.toNat_setWidth, BitVec.toNat_sub, BitVec.toNat_ofNat, count]
    omega
  have state : (p.store first).inputState = .sysexMessage := inside.state
  rw [Parser.call, midiInputCallbacks, if_pos state, count, start]
  simp only [length]
  congr 1
  have kept (i : Fin 3) (before : i.val < held.length) :
      (p.store first).inputBuffer i = held[i.val] := by
    have apart : i ≠ p.place := fun same => by
      rw [same, place] at before
      omega
    rw [Parser.store]
    simp only
    rw [Function.update_of_ne apart]
    exact inside.buffer i _ (List.getElem?_eq_getElem before)
  have stored (i : Fin 3) (last : i.val = held.length) : (p.store first).inputBuffer i = first := by
    have same : i = p.place := Fin.ext (last.trans place.symm)
    rw [Parser.store, same]
    exact Function.update_self ..
  rcases short_cases (by omega : held.length < 3) with rfl | ⟨byte0, rfl⟩ | ⟨byte0, byte1, rfl⟩
  · simp [stored 0 rfl]
  · simp [kept 0 (by simp), stored 1 rfl]
  · simp [kept 0 (by simp), kept 1 (by simp), stored 2 rfl]

/-- The rest of a system exclusive message is heard in chunks. -/
theorem InSysex.hear (inside : InSysex p passed held) (data : List (BitVec 7))
    (small : passed + data.length + 1 < 2 ^ 16) :
    (p.hear (data.map (BitVec.setWidth 8) ++ [sysexEnd])).1.inputState ≠ .sysexMessage ∧
      (p.hear (data.map (BitVec.setWidth 8) ++ [sysexEnd])).2 =
        chunks (passed - held.length) (held ++ data.map (BitVec.setWidth 8) ++ [sysexEnd]) := by
  induction data generalizing p passed held with
  | nil =>
    have called := @InSysex.call p sysexEnd _ _ inside (by simpa using small)
    have ended : p.midiProcessByte sysexEnd =
        ({ p.store sysexEnd with inputState := .idle }, [(p.store sysexEnd).call]) := by
      have notRealtime : midiIsRealtime sysexEnd = false := by decide
      have isStatus : midiIsStatusbyte sysexEnd = true := by decide
      have length : midiPacketLength sysexEnd = .undefined := by decide
      have notBegin : sysexEnd ≠ sysexBegin := by decide
      simp [midiProcessByte, notRealtime, isStatus, processStatus, length, notBegin, inside.state]
    have few := inside.few
    simp only [List.map_nil, List.nil_append, List.append_nil, Parser.hear, ended, called]
    refine ⟨by simp, ?_⟩
    rcases short_cases (by omega : held.length < 3) with rfl | ⟨byte0, rfl⟩ | ⟨byte0, byte1, rfl⟩
    all_goals rfl
  | cons byte rest ih =>
    have data := isData_setWidth byte
    have place := inside.place (by omega)
    have few := inside.few
    have notIdle : p.inputState ≠ .idle := by
      rw [inside.state]
      decide
    simp only [List.length_cons] at small
    by_cases full : held.length = 2
    · -- the byte completes a chunk
      obtain rfl | ⟨_, rfl⟩ | ⟨byte0, byte1, rfl⟩ := short_cases (by omega : held.length < 3)
      · cases full
      · cases full
      have third : p.place = 2 := Fin.ext (place.trans full)
      have called := @InSysex.call p (byte.setWidth 8) _ _ inside (by omega)
      have emptied : InSysex (p.store (byte.setWidth 8)) (passed + 1) [] := by
        refine ⟨inside.state, ?_, by simp; omega, by simp⟩
        rw [Parser.store, inside.count]
        simp [BitVec.ofNat_add]
      have processed : p.midiProcessByte (byte.setWidth 8) =
          (p.store (byte.setWidth 8), [(p.store (byte.setWidth 8)).call]) := by
        rw [processByte_data data, processData, if_neg notIdle, third]
        simp [inside.state]
      obtain ⟨ended, heard⟩ := ih emptied (by omega)
      have next : passed + 1 - 0 = passed - 2 + 3 := by omega
      simp only [List.map_cons, List.cons_append, Parser.hear, processed, called]
      refine ⟨ended, ?_⟩
      rw [heard]
      simp only [List.length_nil, next, List.nil_append, List.length_cons]
      rfl
    · have grown := @InSysex.store p (byte.setWidth 8) _ _ inside (by omega) (by omega)
      have processed : p.midiProcessByte (byte.setWidth 8) = (p.store (byte.setWidth 8), []) := by
        have notThird : p.place ≠ 2 := fun same => full (by rw [← place, same]; rfl)
        rw [processByte_data data, processData, if_neg notIdle, if_neg notThird]
        simp [inside.state]
      obtain ⟨ended, heard⟩ := ih grown (by omega)
      have next : passed + 1 - (held ++ [byte.setWidth 8]).length = passed - held.length := by
        rw [List.length_append, List.length_singleton]
        omega
      simp only [List.map_cons, List.cons_append, Parser.hear, processed, List.nil_append]
      refine ⟨ended, ?_⟩
      rw [heard, next]
      simp

end Inside

theorem InSysex.begin (between : p.inputState ≠ .sysexMessage) :
    p.midiProcessByte sysexBegin = ((p.midiProcessByte sysexBegin).1, []) ∧
      InSysex (p.midiProcessByte sysexBegin).1 1 [sysexBegin] := by
  have notRealtime : midiIsRealtime sysexBegin = false := by decide
  have isStatus : midiIsStatusbyte sysexBegin = true := by decide
  have length : midiPacketLength sysexBegin = .undefined := by decide
  have begun : p.midiProcessByte sysexBegin =
      ({ inputState := .sysexMessage
         inputCount := 1
         inputBuffer := Function.update p.inputBuffer 0 sysexBegin }, []) := by
    simp [midiProcessByte, notRealtime, isStatus, processStatus, length]
  rw [begun]
  refine ⟨rfl, rfl, rfl, rfl, ?_⟩
  intro i byte here
  obtain rfl : i = 0 := by
    by_contra apart
    have outside : ([sysexBegin] : List Byte)[i.val]? = none :=
      List.getElem?_eq_none (by simp; omega)
    rw [outside] at here
    cases here
  simpa using here

end Parser

/-! ### Every message -/

/-- The channel messages: the status byte begins a message of its length, and
gives back its kind and its channel. -/
theorem begins_low : ∀ low : Fin 16,
    (∀ kind ∈ [midiCc, midiNoteon, midiNoteoff, midiAftertouch, midiPitchbend],
      midiPacketLength (kind ||| BitVec.ofNat 8 low) = .three ∧
        (kind ||| BitVec.ofNat 8 low) &&& 0xF0 = kind) ∧
    (∀ kind ∈ [midiProgchange, midiChanpressure],
      midiPacketLength (kind ||| BitVec.ofNat 8 low) = .two ∧
        (kind ||| BitVec.ofNat 8 low) &&& 0xF0 = kind) ∧
    ∀ kind ∈ [midiCc, midiNoteon, midiNoteoff, midiAftertouch, midiPitchbend, midiProgchange,
        midiChanpressure],
      midiIsRealtime (kind ||| BitVec.ofNat 8 low) = false ∧
        midiIsStatusbyte (kind ||| BitVec.ofNat 8 low) = true ∧
        (kind ||| BitVec.ofNat 8 low) &&& 0x0F = BitVec.ofNat 8 low := by
  decide +kernel

theorem chanmask_low (chan : Byte) :
    chan &&& midiChanmask =
      BitVec.ofNat 8 (⟨chan.toNat % 16, Nat.mod_lt _ (by decide)⟩ : Fin 16) := by
  revert chan
  decide +kernel

/-- The two halves of fourteen bits, as the senders cut them. -/
theorem low_half (bits : BitVec 16) :
    (bits &&& 0x7F).setWidth 8 = (bits.extractLsb' 0 7).setWidth 8 := by
  apply BitVec.eq_of_getLsbD_eq
  intro i below
  have mask : (0x7F : BitVec 16).getLsbD i = decide (i < 7) := by
    interval_cases i <;> rfl
  simp only [BitVec.getLsbD_setWidth, BitVec.getLsbD_and, mask, below, decide_true, Bool.true_and,
    BitVec.getLsbD_extractLsb', BitVec.getLsbD_ushiftRight, Bool.and_comm, Nat.zero_add]

theorem high_half (bits : BitVec 16) :
    (bits >>> 7 &&& 0x7F).setWidth 8 = (bits.extractLsb' 7 7).setWidth 8 := by
  apply BitVec.eq_of_getLsbD_eq
  intro i below
  have mask : (0x7F : BitVec 16).getLsbD i = decide (i < 7) := by
    interval_cases i <;> rfl
  simp only [BitVec.getLsbD_setWidth, BitVec.getLsbD_and, mask, below, decide_true, Bool.true_and,
    BitVec.getLsbD_extractLsb', BitVec.getLsbD_ushiftRight, Bool.and_comm, Nat.zero_add]

/-- Cut into packets, an array still reads as itself. -/
theorem midiSendArray_bytes (array : List Byte) :
    (midiSendArray array).flatMap Packet.bytes = array := by
  induction array using midiSendArray.induct with
  | case1 => rfl
  | case2 first => rfl
  | case3 first second => rfl
  | case4 first second third rest ih =>
    rw [midiSendArray, List.flatMap_cons, ih]
    rfl

section Channel

variable {p : Parser} {kind : Byte}

theorem begins_three (chan : Byte)
    (member : kind ∈ [midiCc, midiNoteon, midiNoteoff, midiAftertouch, midiPitchbend]) :
    Begins (kind ||| chan &&& midiChanmask) .three ∧
      (kind ||| chan &&& midiChanmask) &&& 0xF0 = kind ∧
      (kind ||| chan &&& midiChanmask) &&& 0x0F = chan &&& 0x0F := by
  have fifteen : (0x0F : Byte) = midiChanmask := rfl
  rw [fifteen, chanmask_low]
  obtain ⟨threes, -, all⟩ := begins_low ⟨chan.toNat % 16, Nat.mod_lt _ (by decide)⟩
  obtain ⟨length, back⟩ := threes kind member
  obtain ⟨notRealtime, isStatus, low⟩ := all kind (by simp at member ⊢; tauto)
  exact ⟨⟨notRealtime, isStatus, length⟩, back, low⟩

theorem begins_two (chan : Byte) (member : kind ∈ [midiProgchange, midiChanpressure]) :
    Begins (kind ||| chan &&& midiChanmask) .two ∧
      (kind ||| chan &&& midiChanmask) &&& 0xF0 = kind ∧
      (kind ||| chan &&& midiChanmask) &&& 0x0F = chan &&& 0x0F := by
  have fifteen : (0x0F : Byte) = midiChanmask := rfl
  rw [fifteen, chanmask_low]
  obtain ⟨-, twos, all⟩ := begins_low ⟨chan.toNat % 16, Nat.mod_lt _ (by decide)⟩
  obtain ⟨length, back⟩ := twos kind member
  obtain ⟨notRealtime, isStatus, low⟩ := all kind (by simp at member ⊢; tauto)
  exact ⟨⟨notRealtime, isStatus, length⟩, back, low⟩

end Channel

namespace Parser

variable {p : Parser}

/-- Between messages, a message is heard as it was meant, and the parser is
between messages again. -/
theorem hear_sent (between : p.inputState ≠ .sysexMessage) (sent : Sent) :
    (p.hear sent.bytes).1.inputState ≠ .sysexMessage ∧ (p.hear sent.bytes).2 = sent.heard := by
  have three {sent : Sent} {status first second : Byte} {callback : Callback}
      (bytes : sent.bytes = [status, first, second]) (begins : Begins status .three)
      (data : IsData first) (data' : IsData second)
      (meant : midiInputCallbacks .threeByteMessage 3 status first second = callback) :
      (p.hear sent.bytes).1.inputState ≠ .sysexMessage ∧ (p.hear sent.bytes).2 = [callback] := by
    rw [bytes, ← meant]
    exact hear_three begins data data' between
  have two {sent : Sent} {status first : Byte} {callback : Callback}
      (bytes : sent.bytes = [status, first]) (begins : Begins status .two) (data : IsData first)
      (meant : midiInputCallbacks .twoByteMessage 2 status first 0 = callback) :
      (p.hear sent.bytes).1.inputState ≠ .sysexMessage ∧ (p.hear sent.bytes).2 = [callback] := by
    rw [bytes, ← meant]
    exact hear_two begins data between
  cases sent with
  | cc chan num val =>
    obtain ⟨begins, kind, low⟩ := @begins_three midiCc chan (by decide)
    have bytes : Sent.bytes (.cc chan num val) =
        [midiCc ||| chan &&& midiChanmask, num &&& 0x7F, val &&& 0x7F] := rfl
    refine three bytes begins (isData_masked num) (isData_masked val) ?_
    simp only [midiInputCallbacks, kind, low]
    rfl
  | noteon chan num vel =>
    obtain ⟨begins, kind, low⟩ := @begins_three midiNoteon chan (by decide)
    have bytes : Sent.bytes (.noteon chan num vel) =
        [midiNoteon ||| chan &&& midiChanmask, num &&& 0x7F, vel &&& 0x7F] := rfl
    refine three bytes begins (isData_masked num) (isData_masked vel) ?_
    simp only [midiInputCallbacks, kind, low]
    rfl
  | noteoff chan num vel =>
    obtain ⟨begins, kind, low⟩ := @begins_three midiNoteoff chan (by decide)
    have bytes : Sent.bytes (.noteoff chan num vel) =
        [midiNoteoff ||| chan &&& midiChanmask, num &&& 0x7F, vel &&& 0x7F] := rfl
    refine three bytes begins (isData_masked num) (isData_masked vel) ?_
    simp only [midiInputCallbacks, kind, low]
    rfl
  | aftertouch chan noteNum amt =>
    obtain ⟨begins, kind, low⟩ := @begins_three midiAftertouch chan (by decide)
    have bytes : Sent.bytes (.aftertouch chan noteNum amt) =
        [midiAftertouch ||| chan &&& midiChanmask, noteNum &&& 0x7F, amt &&& 0x7F] := rfl
    refine three bytes begins (isData_masked noteNum) (isData_masked amt) ?_
    simp only [midiInputCallbacks, kind, low]
    rfl
  | pitchbend chan amt =>
    obtain ⟨begins, kind, low⟩ := @begins_three midiPitchbend chan (by decide)
    have halves : Sent.bytes (.pitchbend chan amt) =
        [midiPitchbend ||| chan &&& midiChanmask, ((bendAmount amt).extractLsb' 0 7).setWidth 8,
          ((bendAmount amt).extractLsb' 7 7).setWidth 8] := by
      rw [← low_half, ← high_half]
      rfl
    refine three halves begins (isData_setWidth _) (isData_setWidth _) ?_
    simp only [midiInputCallbacks, kind, low]
    rfl
  | programchange chan num =>
    obtain ⟨begins, kind, low⟩ := @begins_two midiProgchange chan (by decide)
    have bytes : Sent.bytes (.programchange chan num) =
        [midiProgchange ||| chan &&& midiChanmask, num &&& 0x7F] := rfl
    refine two bytes begins (isData_masked num) ?_
    simp only [midiInputCallbacks, kind, low]
    rfl
  | channelpressure chan amt =>
    obtain ⟨begins, kind, low⟩ := @begins_two midiChanpressure chan (by decide)
    have bytes : Sent.bytes (.channelpressure chan amt) =
        [midiChanpressure ||| chan &&& midiChanmask, amt &&& 0x7F] := rfl
    refine two bytes begins (isData_masked amt) ?_
    simp only [midiInputCallbacks, kind, low]
    rfl
  | tcquarterframe time =>
    have begins : Begins midiTcQuarterframe .two := ⟨by decide, by decide, by decide⟩
    refine two rfl begins (isData_masked time) ?_
    simp [midiInputCallbacks, midiSendTcquarterframe, midiTcQuarterframe, midiProgchange,
      midiChanpressure, midiSongselect]
  | songposition pos =>
    have halves : Sent.bytes (.songposition pos) = [midiSongposition,
        (pos.extractLsb' 0 7).setWidth 8, (pos.extractLsb' 7 7).setWidth 8] := by
      rw [← low_half, ← high_half]
      rfl
    have begins : Begins midiSongposition .three := ⟨by decide, by decide, by decide⟩
    exact three halves begins (isData_setWidth _) (isData_setWidth _) rfl
  | songselect song =>
    have begins : Begins midiSongselect .two := ⟨by decide, by decide, by decide⟩
    refine two rfl begins (isData_masked song) ?_
    simp [midiInputCallbacks, midiSendSongselect, midiProgchange, midiChanpressure, midiSongselect]
  | tunerequest =>
    exact hear_one ⟨by decide, by decide, by decide⟩ between
  | realtime message =>
    have realtime : midiIsRealtime message.byte = true := by cases message <;> decide
    have bytes : Sent.bytes (.realtime message) = [message.byte] := rfl
    rw [bytes, @hear_realtime p _ realtime]
    exact ⟨between, rfl⟩
  | sysex message =>
    obtain ⟨begun, inside⟩ := InSysex.begin between
    have fits := message.fits
    obtain ⟨ended, heard⟩ := inside.hear message.data (by omega)
    have bytes : Sent.bytes (.sysex message) =
        sysexBegin :: (message.data.map (BitVec.setWidth 8) ++ [sysexEnd]) := by
      rw [Sent.bytes, Sent.packets, midiSendArray_bytes]
      rfl
    rw [bytes, hear, begun]
    exact ⟨ended, heard⟩

end Parser

/-! ### Realtime bytes between the others -/

def Callback.isRealtime : Callback → Bool
  | .realtime _ => true
  | _ => false

/-- The bytes that make up messages longer than one realtime byte. -/
def ofMessages (byte : Byte) : Bool := !midiIsRealtime byte

section Calls

variable {state : InputState} {cnt : BitVec 16} {byte0 byte1 byte2 : Byte}

theorem callbacks_isRealtime
    (realtime : (midiInputCallbacks state cnt byte0 byte1 byte2).isRealtime) :
    state ≠ .sysexMessage ∧ cnt = 1 ∧ midiIsRealtime byte0 = true := by
  revert realtime
  rw [midiInputCallbacks]
  split
  · intro realtime
    cases realtime
  next between =>
  split
  · split_ifs <;> intro realtime <;> cases realtime
  split
  · split_ifs <;> intro realtime <;> cases realtime
  split
  · next one =>
    split_ifs with realtime
    · exact fun _ => ⟨between, one, realtime⟩
    · intro realtime
      cases realtime
    · intro realtime
      cases realtime
  · intro realtime
    cases realtime

end Calls

namespace Parser

variable {p : Parser} {input : Byte}

/-- No byte of a message is taken for a realtime byte. -/
theorem processByte_quiet (quiet : midiIsRealtime input = false) :
    ∀ callback ∈ (p.midiProcessByte input).2, callback.isRealtime = false := by
  have several {state : InputState} {cnt : BitVec 16} {byte0 byte1 byte2 : Byte}
      (more : state = .sysexMessage ∨ cnt ≠ 1 ∨ byte0 = input) :
      (midiInputCallbacks state cnt byte0 byte1 byte2).isRealtime = false := by
    by_contra realtime
    rw [Bool.not_eq_false] at realtime
    obtain ⟨between, one, taken⟩ := callbacks_isRealtime realtime
    rcases more with inside | more | rfl
    · exact between inside
    · exact more one
    · rw [taken] at quiet
      cases quiet
  rw [midiProcessByte, quiet]
  simp only [Bool.false_eq_true, if_false]
  split
  · rw [processStatus]
    split
    · simpa using several (.inr (.inr rfl))
    · simp
    · simp
    · split
      · simp
      split
      · by_cases inside : p.inputState = .sysexMessage
        · simpa [inside, call, store] using several (.inl rfl)
        · simpa [inside, call, store] using several (.inr (.inl (by decide)))
      · simp
  · have counted (place : p.place ≠ 0) : p.inputCount + 1 ≠ 1 := by
      intro one
      apply place
      have empty : p.inputCount = 0 := by simpa using one
      apply Fin.ext
      simp [Parser.place, empty]
    rw [processData]
    split
    · simp
    simp only
    split
    · next third =>
      have more : (p.store input).inputCount ≠ 1 := counted (by rw [third]; decide)
      simpa [call] using several (.inr (.inl more))
    split
    · next second =>
      have more : (p.store input).inputCount ≠ 1 := counted (by rw [second.1]; decide)
      simpa using several (.inr (.inl more))
    · simp

/-- A realtime byte is heard at once, and leaves everything else as it was. -/
theorem processByte_realtime (realtime : midiIsRealtime input = true) :
    p.midiProcessByte input = (p, [.realtime input]) := by
  have heard := @hear_realtime p _ realtime
  rw [hear, hear] at heard
  simpa using heard

/-- Realtime bytes between the others change neither the parser nor what it hears. -/
theorem hear_realtimes (p : Parser) (wire : List Byte) :
    (p.hear wire).1 = (p.hear (wire.filter ofMessages)).1 ∧
      (p.hear wire).2.filter (!·.isRealtime) = (p.hear (wire.filter ofMessages)).2 ∧
      (p.hear wire).2.filter (·.isRealtime) = (wire.filter midiIsRealtime).map .realtime := by
  induction wire generalizing p with
  | nil => exact ⟨rfl, rfl, rfl⟩
  | cons input rest ih =>
    obtain ⟨parser, others, realtimes⟩ := ih (p.midiProcessByte input).1
    by_cases realtime : midiIsRealtime input = true
    · have taken := @processByte_realtime p _ realtime
      rw [taken] at parser others realtimes
      have dropped : ofMessages input = false := by rw [ofMessages, realtime]; rfl
      rw [List.filter_cons_of_neg (by simp [dropped]), List.filter_cons_of_pos realtime, hear,
        taken]
      refine ⟨parser, ?_, ?_⟩
      · simpa [Callback.isRealtime] using others
      · simpa [Callback.isRealtime] using realtimes
    · rw [Bool.not_eq_true] at realtime
      have kept : ofMessages input = true := by rw [ofMessages, realtime]; rfl
      have quiet := @processByte_quiet p _ realtime
      have all : (p.midiProcessByte input).2.filter (!·.isRealtime) = (p.midiProcessByte input).2 :=
        List.filter_eq_self.mpr fun callback member => by simp [quiet callback member]
      have none : (p.midiProcessByte input).2.filter (·.isRealtime) = [] :=
        List.filter_eq_nil_iff.mpr fun callback member => by simp [quiet callback member]
      rw [List.filter_cons_of_pos kept, List.filter_cons_of_neg (by simp [realtime]), hear, hear]
      simp only [List.filter_append, all, none, List.nil_append]
      exact ⟨parser, by rw [others], realtimes⟩

/-- Messages one after the other are heard one after the other. -/
theorem hear_all (between : p.inputState ≠ .sysexMessage) (sents : List Sent) :
    (p.hear (sents.flatMap Sent.bytes)).1.inputState ≠ .sysexMessage ∧
      (p.hear (sents.flatMap Sent.bytes)).2 = sents.flatMap Sent.heard := by
  induction sents generalizing p with
  | nil => exact ⟨between, rfl⟩
  | cons sent rest ih =>
    obtain ⟨between', first⟩ := hear_sent between sent
    obtain ⟨ended, later⟩ := ih between'
    rw [List.flatMap_cons, List.flatMap_cons, hear_append]
    exact ⟨ended, by rw [first, later]⟩

end Parser

variable {p : Parser} {sents : List Sent} {wire : List Byte}

/-- Messages come through the wire whole and in order, whatever realtime bytes
are put between their bytes, and every realtime byte is heard. -/
theorem heard_whole (between : p.inputState ≠ .sysexMessage)
    (carried : wire.filter ofMessages = (sents.flatMap Sent.bytes).filter ofMessages) :
    (p.hear wire).2.filter (!·.isRealtime) =
        (sents.flatMap Sent.heard).filter (!·.isRealtime) ∧
      (p.hear wire).2.filter (·.isRealtime) = (wire.filter midiIsRealtime).map .realtime ∧
      (p.hear wire).1.inputState ≠ .sysexMessage := by
  obtain ⟨parser, others, realtimes⟩ := p.hear_realtimes wire
  obtain ⟨parser', others', -⟩ := p.hear_realtimes (sents.flatMap Sent.bytes)
  obtain ⟨ended, heard⟩ := Parser.hear_all between sents
  refine ⟨?_, realtimes, ?_⟩
  · rw [others, carried, ← others', heard]
  · rw [parser, carried, ← parser']
    exact ended

/-- A clock inside a note, and a note after a system exclusive message with a
clock inside. -/
theorem heard_whole_clocked :
    (({} : Parser).hear [0x91, 0xF8, 0x3C, 0x40, 0xF0, 0x01, 0xF8, 0xF7, 0x81, 0x3C, 0x00]).2.filter
        (!·.isRealtime) =
      [.noteon 1 0x3C 0x40, .sysex 0 [0xF0, 0x01, 0xF7], .noteoff 1 0x3C 0] := by
  exact (@heard_whole {} [.noteon 1 0x3C 0x40, .sysex ⟨[1], by decide⟩, .noteoff 1 0x3C 0] _
    (by decide) (by decide)).1.trans (by decide)

end QmkSonix.Midi.Wire
