import QmkSonix.Lib.Ring
import QmkSonix.Midi.Wire

/-! MIDI between two devices: the event packets of `qmk_midi.c` in an endpoint, the
queue of `bytequeue.c` and `midi_device_process`. `MIDI_EVENT` belongs to the USB
library, and is a parameter. -/

namespace QmkSonix.Midi.Usb

open Wire Lib

def sysexStartOrCont : Byte := 0x40
def sysexEndsIn1 : Byte := 0x50
def sysexEndsIn2 : Byte := 0x60
def sysexEndsIn3 : Byte := 0x70
def sysCommon2 : Byte := 0x20
def sysCommon3 : Byte := 0x30

def midiInputQueueLength : ℕ := 192

/-- `MIDI_EventPacket_t` -/
structure EventPacket where
  event : Byte
  data1 : Byte
  data2 : Byte
  data3 : Byte
  deriving DecidableEq, Repr

def packetBytes : PacketLength → ℕ
  | .undefined => 0
  | .one => 1
  | .two => 2
  | .three => 3

section Events

variable (midiEvent : Byte → Byte)

/-- `usb_send_func`; nothing is sent for a count that is not one of the three. -/
def usbSendFunc (packet : Packet) : Option EventPacket :=
  let send (command : Byte) : Option EventPacket :=
    some ⟨midiEvent command, packet.byte0, packet.byte1, packet.byte2⟩
  if midiPacketLength packet.byte0 = .undefined then
    if packet.count = 3 then
      if packet.byte2 = sysexEnd then send sysexEndsIn3 else send sysexStartOrCont
    else if packet.count = 2 then
      if packet.byte1 = sysexEnd then send sysexEndsIn2 else send sysexStartOrCont
    else if packet.count = 1 then
      if packet.byte0 = sysexEnd then send sysexEndsIn1 else send sysexStartOrCont
    else none
  else if packet.byte0 &&& 0xF0 = midiSongposition then send sysCommon3
  else if packet.byte0 &&& 0xF0 = midiSongselect ∨ packet.byte0 &&& 0xF0 = midiTcQuarterframe then
    send sysCommon2
  else send packet.byte0

/-- The bytes that `usb_get_midi` passes on for an event packet. -/
def usbGetMidi (event : EventPacket) : List Byte :=
  let known := midiPacketLength event.data1
  let length :=
    if known = .undefined then
      if event.event = midiEvent sysexStartOrCont ∨ event.event = midiEvent sysexEndsIn3 then
        PacketLength.three
      else if event.event = midiEvent sysexEndsIn2 then .two
      else if event.event = midiEvent sysexEndsIn1 then .one
      else .undefined
    else known
  if length ≠ .undefined then
    [event.data1, event.data2, event.data3].take (packetBytes length)
  else []

end Events

/-! ### The queue -/

/-- `byteQueue_t`; its field `end` is `finish`. -/
structure ByteQueue where
  start : ℕ
  finish : ℕ
  length : ℕ
  data : ℕ → Byte

def bytequeueInit (arrayLen : ℕ) (data : ℕ → Byte) : ByteQueue := ⟨0, 0, arrayLen, data⟩

namespace ByteQueue

def bytequeueEnqueue (queue : ByteQueue) (item : Byte) : ByteQueue × Bool :=
  if (queue.finish + 1) % queue.length = queue.start then (queue, false)
  else
    ({ queue with
        data := Function.update queue.data queue.finish item
        finish := (queue.finish + 1) % queue.length }, true)

def bytequeueLength (queue : ByteQueue) : ℕ :=
  if queue.start ≤ queue.finish then queue.finish - queue.start
  else queue.length - queue.start + queue.finish

def bytequeueGet (queue : ByteQueue) (index : ℕ) : Byte :=
  queue.data ((queue.start + index) % queue.length)

def bytequeueRemove (queue : ByteQueue) (numToRemove : ℕ) : ByteQueue :=
  { queue with start := (queue.start + numToRemove) % queue.length }

/-- The queue has room for one byte less than its cells, and holds some bytes. -/
structure Holds (queue : ByteQueue) (bytes : List Byte) : Prop where
  start : queue.start < queue.length
  finish : queue.finish < queue.length
  bytes : stretch queue.data queue.length queue.start queue.finish = bytes

variable {queue : ByteQueue} {bytes : List Byte} {item : Byte}

theorem holds_init (arrayLen : ℕ) (data : ℕ → Byte) (some : 0 < arrayLen) :
    (bytequeueInit arrayLen data).Holds [] :=
  ⟨some, some, stretch_self ..⟩

theorem Holds.length (holds : queue.Holds bytes) : queue.bytequeueLength = bytes.length := by
  obtain ⟨start, finish, rfl⟩ := holds
  rw [bytequeueLength, length_stretch, ahead_mod start finish]
  split <;> omega

theorem Holds.full_iff (holds : queue.Holds bytes) :
    (queue.finish + 1) % queue.length = queue.start ↔ bytes.length + 1 = queue.length := by
  obtain ⟨start, finish, rfl⟩ := holds
  rw [length_stretch, ahead_mod start finish, next_mod finish]
  split <;> split <;> omega

/-- A byte joins the queue unless the queue is full. -/
theorem Holds.enqueue (holds : queue.Holds bytes) :
    (queue.bytequeueEnqueue item).1.Holds ((bytes ++ [item]).take (queue.length - 1)) ∧
      (queue.bytequeueEnqueue item).1.length = queue.length := by
  have below : bytes.length < queue.length := by
    obtain ⟨start, finish, rfl⟩ := holds
    exact length_stretch_lt start finish
  rw [bytequeueEnqueue]
  split
  · next full =>
    rw [holds.full_iff] at full
    refine ⟨?_, rfl⟩
    have kept : (bytes ++ [item]).take (queue.length - 1) = bytes := by
      rw [← full, Nat.add_sub_cancel, List.take_left]
    rw [kept]
    exact holds
  · next room =>
    have short : (bytes ++ [item]).length ≤ queue.length - 1 := by
      rw [holds.full_iff] at room
      rw [List.length_append, List.length_singleton]
      omega
    rw [List.take_of_length_le short]
    obtain ⟨start, finish, rfl⟩ := holds
    exact ⟨⟨start, Nat.mod_lt _ (by omega), stretch_push start finish room item⟩, rfl⟩

theorem Holds.get (holds : queue.Holds (item :: bytes)) :
    queue.bytequeueGet 0 = item ∧ (queue.bytequeueRemove 1).Holds bytes := by
  obtain ⟨start, finish, held⟩ := holds
  have apart : queue.start ≠ queue.finish := by
    intro same
    rw [same, stretch_self] at held
    cases held
  rw [stretch_cons start finish apart, List.cons.injEq] at held
  refine ⟨?_, Nat.mod_lt _ (by omega), finish, held.2⟩
  rw [bytequeueGet, Nat.add_zero, Nat.mod_eq_of_lt start]
  exact held.1

end ByteQueue

/-! ### The device -/

/-- The parts of `MidiDevice` that input goes through. -/
structure Device where
  parser : Parser := {}
  inputQueue : ByteQueue

namespace Device

/-- `midi_device_init` -/
def midiDeviceInit (data : ℕ → Byte) : Device :=
  { inputQueue := bytequeueInit midiInputQueueLength data }

/-- `midi_device_input`: what does not fit is lost. -/
def midiDeviceInput (device : Device) (input : List Byte) : Device :=
  { device with
    inputQueue :=
      input.foldl (fun queue byte => (queue.bytequeueEnqueue byte).1) device.inputQueue }

/-- The loop of `midi_device_process`, with the number of rounds left. -/
def processQueue (device : Device) : ℕ → Device × List Callback
  | 0 => (device, [])
  | rounds + 1 =>
    let val := device.inputQueue.bytequeueGet 0
    let processed := device.parser.midiProcessByte val
    let removed : Device :=
      { parser := processed.1, inputQueue := device.inputQueue.bytequeueRemove 1 }
    let later := removed.processQueue rounds
    (later.1, processed.2 ++ later.2)

/-- `midi_device_process`, with `usb_get_midi` as the callback before the input:
it takes every event packet that has come. -/
def midiDeviceProcess (midiEvent : Byte → Byte) (device : Device) (received : List EventPacket) :
    Device × List Callback :=
  let device := received.foldl (fun device event =>
    device.midiDeviceInput (usbGetMidi midiEvent event)) device
  device.processQueue device.inputQueue.bytequeueLength

theorem take_cut {α : Type*} (first second : List α) (count : ℕ) :
    (first.take count ++ second).take count = (first ++ second).take count := by
  simp only [List.take_append, List.take_take, Nat.min_self, List.length_take]
  congr 2
  omega

variable {device : Device} {bytes : List Byte}

/-- The loop hears the bytes of the queue, and leaves it empty. -/
theorem processQueue_hear (holds : device.inputQueue.Holds bytes) :
    (device.processQueue bytes.length).1.parser = (device.parser.hear bytes).1 ∧
      (device.processQueue bytes.length).1.inputQueue.Holds [] ∧
      (device.processQueue bytes.length).1.inputQueue.length = device.inputQueue.length ∧
      (device.processQueue bytes.length).2 = (device.parser.hear bytes).2 := by
  induction bytes generalizing device with
  | nil => exact ⟨rfl, holds, rfl, rfl⟩
  | cons byte rest ih =>
    obtain ⟨first, removed⟩ := holds.get
    obtain ⟨parser, emptied, length, heard⟩ :=
      @ih { parser := (device.parser.midiProcessByte byte).1
            inputQueue := device.inputQueue.bytequeueRemove 1 } removed
    simp only [List.length_cons, processQueue, first, Parser.hear]
    exact ⟨parser, emptied, length, by rw [heard]⟩

/-- Of all input the queue keeps what fits in the order of its coming. -/
theorem input_holds (holds : device.inputQueue.Holds bytes) (input : List Byte)
    (most : bytes.length ≤ device.inputQueue.length - 1) :
    (device.midiDeviceInput input).inputQueue.Holds
        ((bytes ++ input).take (device.inputQueue.length - 1)) ∧
      (device.midiDeviceInput input).inputQueue.length = device.inputQueue.length := by
  rw [midiDeviceInput]
  simp only
  generalize device.inputQueue = queue at holds most ⊢
  induction input generalizing queue bytes with
  | nil =>
    rw [List.append_nil, List.take_of_length_le most]
    exact ⟨holds, rfl⟩
  | cons byte rest ih =>
    obtain ⟨joined, length⟩ := @ByteQueue.Holds.enqueue _ _ byte holds
    have capped : ((bytes ++ [byte]).take (queue.length - 1)).length ≤ queue.length - 1 :=
      List.length_take_le ..
    obtain ⟨all, length'⟩ := ih _ joined (by rw [length]; exact capped)
    rw [List.foldl_cons]
    refine ⟨?_, length'.trans length⟩
    rw [length, take_cut, List.append_assoc] at all
    exact all

variable {midiEvent : Byte → Byte}

theorem received_holds (holds : device.inputQueue.Holds bytes)
    (most : bytes.length ≤ device.inputQueue.length - 1) (received : List EventPacket) :
    (received.foldl (fun device event =>
        device.midiDeviceInput (usbGetMidi midiEvent event)) device).inputQueue.Holds
      ((bytes ++ received.flatMap (usbGetMidi midiEvent)).take (device.inputQueue.length - 1)) ∧
    (received.foldl (fun device event =>
        device.midiDeviceInput (usbGetMidi midiEvent event)) device).inputQueue.length =
      device.inputQueue.length ∧
    (received.foldl (fun device event =>
        device.midiDeviceInput (usbGetMidi midiEvent event)) device).parser = device.parser := by
  induction received generalizing device bytes with
  | nil =>
    rw [List.flatMap_nil, List.append_nil, List.take_of_length_le most]
    exact ⟨holds, rfl, rfl⟩
  | cons event rest ih =>
    obtain ⟨joined, length⟩ := input_holds holds (usbGetMidi midiEvent event) most
    have capped : ((bytes ++ usbGetMidi midiEvent event).take
        (device.inputQueue.length - 1)).length ≤ device.inputQueue.length - 1 :=
      List.length_take_le ..
    obtain ⟨all, length', parser⟩ := ih joined (by rw [length]; exact capped)
    rw [length, take_cut, List.append_assoc] at all
    rw [List.foldl_cons, List.flatMap_cons]
    exact ⟨all, length'.trans length, parser⟩

/-- One call of `midi_device_process` hears what has come since the last one, up
to the room in the queue. -/
theorem midiDeviceProcess_hear (empty : device.inputQueue.Holds [])
    (received : List EventPacket) :
    let taken := (received.flatMap (usbGetMidi midiEvent)).take (device.inputQueue.length - 1)
    let processed := device.midiDeviceProcess midiEvent received
    processed.1.parser = (device.parser.hear taken).1 ∧ processed.1.inputQueue.Holds [] ∧
      processed.1.inputQueue.length = device.inputQueue.length ∧
      processed.2 = (device.parser.hear taken).2 := by
  obtain ⟨holds, length, parser⟩ :=
    @received_holds _ _ midiEvent empty (Nat.zero_le _) received
  rw [List.nil_append] at holds
  obtain ⟨parser', emptied, length', heard⟩ := processQueue_hear holds
  rw [← holds.length] at parser' emptied length' heard
  rw [parser] at parser' heard
  exact ⟨parser', emptied, length'.trans length, heard⟩

end Device

/-! ### Packets of messages -/

/-- A packet of a whole short message, or a part of a system exclusive message. -/
inductive Proper (packet : Packet) : Prop where
  | short (known : midiPacketLength packet.byte0 ≠ .undefined)
    (count : packet.count.toNat = packetBytes (midiPacketLength packet.byte0))
  | part (sysex : midiPacketLength packet.byte0 = .undefined)
    (count : packet.count = 3 ∨ (packet.count = 2 ∧ packet.byte1 = sysexEnd) ∨
      (packet.count = 1 ∧ packet.byte0 = sysexEnd))

/-- The commands that tell the parts of a system exclusive message apart. -/
def Distinct (midiEvent : Byte → Byte) : Prop :=
  ([sysexStartOrCont, sysexEndsIn1, sysexEndsIn2, sysexEndsIn3].map midiEvent).Nodup

section Carried

variable {midiEvent : Byte → Byte} {packet : Packet}

/-- A proper packet is sent, and the bytes that count come out at the other end. -/
theorem Proper.carried (distinct : Distinct midiEvent) (proper : Proper packet) :
    ∃ event, usbSendFunc midiEvent packet = some event ∧
      usbGetMidi midiEvent event = packet.bytes := by
  cases proper with
  | short known count =>
    have sent (command : Byte) : usbGetMidi midiEvent
        ⟨midiEvent command, packet.byte0, packet.byte1, packet.byte2⟩ = packet.bytes := by
      simp only [usbGetMidi, if_neg known]
      rw [if_pos known, Packet.bytes, count]
    simp only [usbSendFunc, if_neg known]
    split_ifs
    · exact ⟨_, rfl, sent _⟩
    · exact ⟨_, rfl, sent _⟩
    · exact ⟨_, rfl, sent _⟩
  | part sysex count =>
    simp only [Distinct, List.map_cons, List.map_nil, List.nodup_cons, List.mem_cons,
      List.not_mem_nil, or_false, not_or] at distinct
    obtain ⟨⟨start1, start2, start3⟩, ⟨ends12, ends13⟩, ends23, -⟩ := distinct
    have get (command : Byte) : usbGetMidi midiEvent
        ⟨midiEvent command, packet.byte0, packet.byte1, packet.byte2⟩ =
        if midiEvent command = midiEvent sysexStartOrCont ∨
            midiEvent command = midiEvent sysexEndsIn3 then
          [packet.byte0, packet.byte1, packet.byte2]
        else if midiEvent command = midiEvent sysexEndsIn2 then [packet.byte0, packet.byte1]
        else if midiEvent command = midiEvent sysexEndsIn1 then [packet.byte0]
        else [] := by
      simp only [usbGetMidi, if_pos sysex]
      split_ifs <;> simp_all [packetBytes]
    simp only [usbSendFunc, if_pos sysex]
    rcases count with three | ⟨two, last⟩ | ⟨one, last⟩
    · rw [if_pos three]
      have bytes : packet.bytes = [packet.byte0, packet.byte1, packet.byte2] := by
        rw [Packet.bytes, three]
        rfl
      rw [bytes]
      split_ifs
      · exact ⟨_, rfl, by rw [get, if_pos (.inr rfl)]⟩
      · exact ⟨_, rfl, by rw [get, if_pos (.inl rfl)]⟩
    · have bytes : packet.bytes = [packet.byte0, packet.byte1] := by
        rw [Packet.bytes, two]
        rfl
      rw [if_neg (by rw [two]; decide), if_pos two, if_pos last, bytes]
      refine ⟨_, rfl, ?_⟩
      rw [get, if_neg (by simp only [not_or]; exact ⟨Ne.symm start2, ends23⟩), if_pos rfl]
    · have bytes : packet.bytes = [packet.byte0] := by
        rw [Packet.bytes, one]
        rfl
      rw [if_neg (by rw [one]; decide), if_neg (by rw [one]; decide), if_pos one, if_pos last,
        bytes]
      refine ⟨_, rfl, ?_⟩
      rw [get, if_neg (by simp only [not_or]; exact ⟨Ne.symm start1, ends13⟩), if_neg ends12,
        if_pos rfl]

end Carried

theorem undefined_setWidth : ∀ bits : BitVec 7,
    midiPacketLength (bits.setWidth 8) = .undefined := by
  decide +kernel

/-- The parts of an array whose last byte ends a system exclusive message. -/
theorem proper_midiSendArray {array : List Byte}
    (bytes : ∀ byte ∈ array, midiPacketLength byte = .undefined)
    (last : ∀ byte ∈ array.getLast?, byte = sysexEnd) :
    ∀ packet ∈ midiSendArray array, Proper packet := by
  induction array using midiSendArray.induct with
  | case1 => simp [midiSendArray]
  | case2 first =>
    have ends : first = sysexEnd := last first (by simp)
    simp only [midiSendArray, List.mem_singleton, forall_eq]
    exact .part (bytes first (by simp)) (.inr (.inr ⟨rfl, ends⟩))
  | case3 first second =>
    have ends : second = sysexEnd := last second (by simp)
    simp only [midiSendArray, List.mem_singleton, forall_eq]
    exact .part (bytes first (by simp)) (.inr (.inl ⟨rfl, ends⟩))
  | case4 first second third rest ih =>
    have last' : ∀ byte ∈ rest.getLast?, byte = sysexEnd := by
      intro byte member
      cases rest with
      | nil => cases member
      | cons fourth rest => exact last byte (by simpa [List.getLast?_cons_cons] using member)
    have later := ih (fun byte member => bytes byte (by simp [member])) last'
    simp only [midiSendArray, List.mem_cons, forall_eq_or_imp]
    exact ⟨.part (bytes first (by simp)) (.inl rfl), later⟩

theorem proper_begins {packet : Packet} {length : PacketLength}
    (begins : Begins packet.byte0 length) (known : length ≠ .undefined)
    (count : packet.count.toNat = packetBytes length) : Proper packet :=
  .short (by rw [begins.length]; exact known) (by rw [begins.length]; exact count)

theorem Sysex.packet_proper (message : Sysex) : ∀ packet ∈ midiSendArray message.array,
    Proper packet := by
  apply proper_midiSendArray
  · intro byte member
    simp only [Sysex.array, List.cons_append, List.mem_cons, List.mem_append, List.mem_map,
      List.not_mem_nil, or_false] at member
    rcases member with rfl | ⟨bits, -, rfl⟩ | rfl
    · decide
    · exact undefined_setWidth bits
    · decide
  · intro byte member
    have last : message.array.getLast? = some sysexEnd := by
      rw [Sysex.array, List.cons_append, ← List.cons_append, List.getLast?_concat]
    rw [last] at member
    exact (Option.some.inj member).symm

/-- Every packet of every sender is proper. -/
theorem Sent.packet_proper (sent : Sent) : ∀ packet ∈ sent.packets, Proper packet := by
  cases sent with
  | cc chan num val =>
    simpa [Sent.packets] using
      proper_begins (@begins_three midiCc chan (by decide)).1 (by decide) rfl
  | noteon chan num vel =>
    simpa [Sent.packets] using
      proper_begins (@begins_three midiNoteon chan (by decide)).1 (by decide) rfl
  | noteoff chan num vel =>
    simpa [Sent.packets] using
      proper_begins (@begins_three midiNoteoff chan (by decide)).1 (by decide) rfl
  | aftertouch chan noteNum amt =>
    simpa [Sent.packets] using
      proper_begins (@begins_three midiAftertouch chan (by decide)).1 (by decide) rfl
  | pitchbend chan amt =>
    simpa [Sent.packets] using
      proper_begins (@begins_three midiPitchbend chan (by decide)).1 (by decide) rfl
  | programchange chan num =>
    simpa [Sent.packets] using
      proper_begins (@begins_two midiProgchange chan (by decide)).1 (by decide) rfl
  | channelpressure chan amt =>
    simpa [Sent.packets] using
      proper_begins (@begins_two midiChanpressure chan (by decide)).1 (by decide) rfl
  | tcquarterframe time =>
    have begins : Begins midiTcQuarterframe .two := ⟨by decide, by decide, by decide⟩
    simpa [Sent.packets] using @proper_begins (midiSendTcquarterframe time) _ begins (by decide) rfl
  | songposition pos =>
    have begins : Begins midiSongposition .three := ⟨by decide, by decide, by decide⟩
    simpa [Sent.packets] using @proper_begins (midiSendSongposition pos) _ begins (by decide) rfl
  | songselect song =>
    have begins : Begins midiSongselect .two := ⟨by decide, by decide, by decide⟩
    simpa [Sent.packets] using @proper_begins (midiSendSongselect song) _ begins (by decide) rfl
  | tunerequest =>
    simpa [Sent.packets] using .short (by decide) rfl
  | realtime message =>
    have known : midiPacketLength message.byte = .one := by cases message <;> decide
    simpa [Sent.packets] using
      .short (by rw [midiSendRealtime, known]; decide) (by rw [midiSendRealtime, known]; rfl)
  | sysex message => exact Sysex.packet_proper message

/-! ### Two devices -/

/-- What can happen on a link: the other device sends a packet, or this one
processes its input. -/
inductive Op where
  | send (packet : Packet)
  | process

/-- A device with its endpoint, and the callbacks it has made. -/
structure Link where
  device : Device
  endpoint : List EventPacket
  heard : List Callback

def Link.init (data : ℕ → Byte) : Link := ⟨Device.midiDeviceInit data, [], []⟩

namespace Link

variable (midiEvent : Byte → Byte)

def step (link : Link) : Op → Link
  | .send packet =>
    { link with endpoint := link.endpoint ++ (usbSendFunc midiEvent packet).toList }
  | .process =>
    let processed := link.device.midiDeviceProcess midiEvent link.endpoint
    { device := processed.1
      endpoint := []
      heard := link.heard ++ processed.2 }

def run (link : Link) (ops : List Op) : Link := ops.foldl (step midiEvent) link

end Link

def Op.packet? : Op → Option Packet
  | .send packet => some packet
  | .process => none

/-- The packets that are sent. -/
def packets (ops : List Op) : List Packet := ops.filterMap Op.packet?

/-- Never do more bytes wait for the next call of `midi_device_process` than its
queue has room for. -/
def Fits (waiting : ℕ) : List Op → Prop
  | [] => waiting < midiInputQueueLength
  | .send packet :: rest => Fits (waiting + packet.bytes.length) rest
  | .process :: rest => waiting < midiInputQueueLength ∧ Fits 0 rest

/-- What has gone by is heard, and what waits in the endpoint is still to be heard. -/
structure Carries (midiEvent : Byte → Byte) (link : Link) (gone waiting : List Byte) : Prop where
  empty : link.device.inputQueue.Holds []
  length : link.device.inputQueue.length = midiInputQueueLength
  parser : link.device.parser = (({} : Parser).hear gone).1
  heard : link.heard = (({} : Parser).hear gone).2
  endpoint : link.endpoint.flatMap (usbGetMidi midiEvent) = waiting

section Carries

variable {midiEvent : Byte → Byte} {link : Link} {gone waiting : List Byte} {packet : Packet}

theorem carries_init (data : ℕ → Byte) : Carries midiEvent (Link.init data) [] [] :=
  ⟨ByteQueue.holds_init _ data (by decide), rfl, rfl, rfl, rfl⟩

theorem Carries.send (carries : Carries midiEvent link gone waiting)
    (distinct : Distinct midiEvent) (proper : Proper packet) :
    Carries midiEvent (link.step midiEvent (.send packet)) gone (waiting ++ packet.bytes) := by
  obtain ⟨event, sent, received⟩ := proper.carried distinct
  refine ⟨carries.empty, carries.length, carries.parser, carries.heard, ?_⟩
  simp only [Link.step, sent, Option.toList_some, List.flatMap_append, carries.endpoint,
    List.flatMap_singleton, received]

theorem Carries.process (carries : Carries midiEvent link gone waiting)
    (room : waiting.length < midiInputQueueLength) :
    Carries midiEvent (link.step midiEvent .process) (gone ++ waiting) [] := by
  have processed := @Device.midiDeviceProcess_hear _ midiEvent carries.empty link.endpoint
  have all : waiting.take (link.device.inputQueue.length - 1) = waiting := by
    apply List.take_of_length_le
    rw [carries.length]
    omega
  rw [carries.endpoint, all, carries.parser] at processed
  obtain ⟨parser, empty, length, heard⟩ := processed
  refine ⟨empty, length.trans carries.length, ?_, ?_, rfl⟩
  · rw [Parser.hear_append]
    exact parser
  · rw [Parser.hear_append]
    simp only [Link.step, carries.heard, heard]

theorem Carries.run (carries : Carries midiEvent link gone waiting)
    (distinct : Distinct midiEvent) {ops : List Op} (proper : ∀ packet ∈ packets ops, Proper packet)
    (fits : Fits waiting.length ops) :
    ∃ gone' waiting', gone' ++ waiting' =
        gone ++ waiting ++ (packets ops).flatMap Packet.bytes ∧
      waiting'.length < midiInputQueueLength ∧
      Carries midiEvent (link.run midiEvent ops) gone' waiting' := by
  induction ops generalizing link gone waiting with
  | nil => exact ⟨gone, waiting, by simp [packets], fits, carries⟩
  | cons op rest ih =>
    cases op with
    | send packet =>
      have all : packets (.send packet :: rest) = packet :: packets rest := rfl
      rw [all] at proper ⊢
      rw [Fits, ← List.length_append] at fits
      obtain ⟨gone', waiting', bytes, room, carries'⟩ :=
        ih (carries.send distinct (proper packet (by simp)))
          (fun packet member => proper packet (by simp [member])) fits
      exact ⟨gone', waiting', by rw [bytes]; simp, room, carries'⟩
    | process =>
      have all : packets (.process :: rest) = packets rest := rfl
      rw [all] at proper ⊢
      obtain ⟨gone', waiting', bytes, room, carries'⟩ :=
        ih (carries.process fits.1) proper fits.2
      exact ⟨gone', waiting', by rw [bytes]; simp, room, carries'⟩

end Carries

/-- Messages sent to a device are heard whole and in order, whatever realtime
messages are sent between their packets and whenever the device processes its
input, as long as its queue has room. -/
theorem link_heard {midiEvent : Byte → Byte} (distinct : Distinct midiEvent) (data : ℕ → Byte)
    {ops : List Op} (sent : ∀ packet ∈ packets ops, ∃ sent : Sent, packet ∈ sent.packets)
    (fits : Fits 0 ops) {sents : List Sent}
    (carried : ((packets ops).flatMap Packet.bytes).filter ofMessages =
      (sents.flatMap Sent.bytes).filter ofMessages) :
    let link := (Link.init data).run midiEvent (ops ++ [.process])
    link.heard.filter (!·.isRealtime) = (sents.flatMap Sent.heard).filter (!·.isRealtime) ∧
      link.heard.filter (·.isRealtime) =
        (((packets ops).flatMap Packet.bytes).filter midiIsRealtime).map .realtime ∧
      link.endpoint = [] := by
  have proper : ∀ packet ∈ packets ops, Proper packet := by
    intro packet member
    obtain ⟨sent, member⟩ := sent packet member
    exact Sent.packet_proper sent packet member
  obtain ⟨gone, waiting, bytes, room, carries⟩ :=
    (carries_init data).run distinct proper fits
  have heard := (carries.process room).heard
  rw [bytes, List.nil_append, List.nil_append] at heard
  have between : ({} : Parser).inputState ≠ .sysexMessage := by decide
  have whole := heard_whole between carried
  simp only [Link.run, List.foldl_append, List.foldl_cons, List.foldl_nil]
  rw [Link.run] at heard
  rw [heard]
  exact ⟨whole.1, whole.2.1, rfl⟩

/-- A system exclusive message in two packets with a clock between them, and a
note after the first call of `midi_device_process`. -/
theorem link_heard_clocked :
    (((Link.init fun _ => 0).run (· >>> 4)
      [.send ⟨3, 0xF0, 0x01, 0x02⟩, .send (midiSendRealtime .clock), .process,
        .send ⟨1, 0xF7, 0, 0⟩, .send (midiSendNoteon 1 0x3C 0x40), .process]).heard.filter (!·.isRealtime)) =
      [.sysex 0 [0xF0, 0x01, 0x02], .sysex 3 [0xF7], .noteon 1 0x3C 0x40] := by
  have sent : ∀ packet ∈ packets [.send ⟨3, 0xF0, 0x01, 0x02⟩, .send (midiSendRealtime .clock),
      .process, .send ⟨1, 0xF7, 0, 0⟩, .send (midiSendNoteon 1 0x3C 0x40)],
      ∃ sent : Sent, packet ∈ sent.packets := by
    have parts : Sent.packets (.sysex ⟨[1, 2], by decide⟩) =
        [⟨3, 0xF0, 0x01, 0x02⟩, ⟨1, 0xF7, 0, 0⟩] := by decide
    simp only [packets, List.filterMap_cons, Op.packet?, List.filterMap_nil, List.mem_cons,
      List.not_mem_nil, or_false, forall_eq_or_imp, forall_eq]
    exact ⟨⟨_, by rw [parts]; simp⟩, ⟨.realtime .clock, by simp [Sent.packets]⟩,
      ⟨_, by rw [parts]; simp⟩, ⟨.noteon 1 0x3C 0x40, by simp [Sent.packets]⟩⟩
  exact (@link_heard (· >>> 4) (by unfold Distinct; decide) (fun _ => 0) _ sent
    (by simp only [Fits]; decide) [.sysex ⟨[1, 2], by decide⟩, .noteon 1 0x3C 0x40]
    (by decide)).1.trans (by decide)

end QmkSonix.Midi.Usb
