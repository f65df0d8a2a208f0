import QmkSonix.Oled.Model

/-! The transfers of `ssd1306_sh1106.c`: a dirty block is sent to an SSD1306, rotated where the
display is, and scrolling is turned on and off. A transfer may fail. -/

namespace QmkSonix.Oled

open QmkSonix.Lib

variable (cfg : Config)

def oledClear (state : State cfg) : State cfg :=
  { state with buffer := fun _ => 0, cursor := 0, dirty := cfg.allBlocks }

/-- What `oled_scroll_right` and `oled_scroll_left` share, over whether the command is sent -/
def startScrolling (state : State cfg) (sent : Bool) : State cfg :=
  if state.dirty = 0 && !state.scrolling && sent then { state with scrolling := true } else state

def oledScrollRight (state : State cfg) (sent : Bool) : State cfg := startScrolling cfg state sent

def oledScrollLeft (state : State cfg) (sent : Bool) : State cfg := startScrolling cfg state sent

def oledScrollOff (state : State cfg) (sent : Bool) : State cfg :=
  if state.scrolling && sent then { state with scrolling := false, dirty := cfg.allBlocks }
  else state

def oledOn (state : State cfg) (sent : Bool) : State cfg :=
  if !state.active && sent then { state with active := true } else state

/-- `calc_bounds` and `calc_bounds_90`: the columns and the pages of a block, each from its
start to its end -/
def calcBounds (updateStart : ℕ) : List (BitVec 8) :=
  let width := cfg.displayWidth
  let startPage := BitVec.ofNat 8 (cfg.blockSize * updateStart / width)
  let startColumn := BitVec.ofNat 8 (cfg.blockSize * updateStart % width)
  [startColumn, BitVec.ofNat 8 ((cfg.blockSize + width - 1) % width) + startColumn,
    startPage, BitVec.ofNat 8 ((cfg.blockSize + width - 1) / width - 1)]

def calcBounds90 (updateStart : ℕ) : List (BitVec 8) :=
  let height := cfg.displayHeight
  let startColumn := BitVec.ofNat 8 (cfg.blockSize * updateStart / height * 8)
  let startPage := BitVec.ofNat 8 (cfg.blockSize * updateStart % height)
  [startColumn, BitVec.ofNat 8 ((cfg.blockSize + height - 1) / height * 8 - 1) + startColumn,
    startPage, BitVec.ofNat 8 ((cfg.blockSize + height - 1) % height / 8)]

def crot (a n : BitVec 8) : BitVec 8 := a <<< (n &&& 7) ||| a >>> (-n &&& 7)

/-- `rotate_90`, from a place of the block to one of `temp_buffer` -/
def rotate90 (block : ℕ → BitVec 8) (source target : ℕ) (dest : ℕ → BitVec 8) : ℕ → BitVec 8 :=
  (List.range 8).foldl (fun dest i =>
    (List.range 8).foldl (fun dest j =>
      Function.update dest (target + i) (dest (target + i) |||
        crot (block (source + j) &&& BitVec.ofNat 8 1 <<< i)
          (BitVec.ofNat 8 7 - BitVec.ofNat 8 i - BitVec.ofNat 8 j))) dest) dest

/-- The bytes that are sent for a block -/
def payload (block : ℕ → BitVec 8) : List (BitVec 8) :=
  if cfg.rotation90 then
    (List.range cfg.blockSize).map <|
      (cfg.sourceMap.zip cfg.targetMap).foldl
        (fun tempBuffer maps => rotate90 block maps.1 maps.2 tempBuffer) fun _ => 0
  else (List.range cfg.blockSize).map block

/-- A data transfer: the block, its bounds on the display and its bytes -/
structure Transfer where
  block : ℕ
  bounds : List (BitVec 8)
  data : List (BitVec 8)
  deriving DecidableEq, Repr

/-- A block of the buffer -/
def State.block {cfg : Config} (state : State cfg) (block : ℕ) : ℕ → BitVec 8 :=
  fun i => state.buffer (cfg.blockSize * block + i)

/-- `oled_render`, over whether the bounds, the data and the command to turn the display on are
sent, with the data transfer that succeeds -/
def oledRender (state : State cfg) (boundsSent dataSent onSent : Bool) :
    State cfg × Option Transfer :=
  let state := { state with dirty := state.dirty &&& cfg.allBlocks }
  match (List.range cfg.blockBits).find? state.dirty.getLsbD with
  | none => (state, none)
  | some updateStart =>
    if state.scrolling || !boundsSent || !dataSent then (state, none)
    else
      let bounds :=
        if cfg.rotation90 then calcBounds90 cfg updateStart else calcBounds cfg updateStart
      let on := oledOn cfg state onSent
      ({ on with dirty := on.dirty &&& ~~~(BitVec.ofNat _ 1 <<< updateStart) },
        some ⟨updateStart, bounds, payload cfg (state.block updateStart)⟩)

/-- What is done with the display. -/
inductive Event where
  | draw (call : Call)
  | clear
  | scrollRight (sent : Bool)
  | scrollLeft (sent : Bool)
  | scrollOff (sent : Bool)
  | render (boundsSent dataSent onSent : Bool)

/-- The driver, and what the last data transfer of each block has sent -/
structure Watched (cfg : Config) where
  state : State cfg := {}
  sent : ℕ → Option (List (BitVec 8)) := fun _ => none

def watchStep (watched : Watched cfg) : Event → Watched cfg
  | .draw call => { watched with state := (draw cfg call).after watched.state }
  | .clear => { watched with state := oledClear cfg watched.state }
  | .scrollRight sent => { watched with state := oledScrollRight cfg watched.state sent }
  | .scrollLeft sent => { watched with state := oledScrollLeft cfg watched.state sent }
  | .scrollOff sent => { watched with state := oledScrollOff cfg watched.state sent }
  | .render boundsSent dataSent onSent =>
    match oledRender cfg watched.state boundsSent dataSent onSent with
    | (state, none) => { watched with state := state }
    | (state, some transfer) =>
      { state := state
        sent := Function.update watched.sent transfer.block (some transfer.data) }

end QmkSonix.Oled
