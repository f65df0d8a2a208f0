import QmkSonix.Lib.Run
import QmkSonix.Lib.Overlay
import QmkSonix.Lib.Ring
import QmkSonix.Lib.Arrival
import QmkSonix.Lib.Wrap
import QmkSonix.Lib.Traced
import QmkSonix.Lib.Links
import QmkSonix.Eeprom.Model
import QmkSonix.Eeprom.Flash
import QmkSonix.Eeprom.Log
import QmkSonix.Eeprom.Encoding
import QmkSonix.Eeprom.Sound
import QmkSonix.Eeprom.Progress
import QmkSonix.Eeprom.Writers
import QmkSonix.Eeprom.Durability
import QmkSonix.Eeprom.PowerLoss
import QmkSonix.Eeprom.Append
import QmkSonix.Eeprom.Settles
import QmkSonix.Eeprom.ByteStatus
import QmkSonix.Eeprom.Status
import QmkSonix.Eeprom.Block
import QmkSonix.Eeprom.BlockWrites
import QmkSonix.Report.Window
import QmkSonix.Report.Bookkeeping
import QmkSonix.Layer.Sticky
import QmkSonix.Split.Send
import QmkSonix.Split.SlaveMatrix
import QmkSonix.Split.Checksum
import QmkSonix.Split.Rgblight
import QmkSonix.Via.Model
import QmkSonix.Via.Bounds
import QmkSonix.Via.Isolation
import QmkSonix.Keyboard.Record
import QmkSonix.Keyboard.Task
import QmkSonix.Keyboard.Reporting
import QmkSonix.Keyboard.Ghost
import QmkSonix.Macro.Model
import QmkSonix.Macro.Recording
import QmkSonix.Tapping.Order
import QmkSonix.Tapping.Once
import QmkSonix.Tapping.ExactlyOnce
import QmkSonix.Macro.Replay
import QmkSonix.Timer.ChibiOS
import QmkSonix.Timer.DeferredExec
import QmkSonix.Timer.DeferredRuns
import QmkSonix.Combo.Model
import QmkSonix.Combo.Tapping
import QmkSonix.Combo.Lookups
import QmkSonix.Combo.Keymap
import QmkSonix.Tapping.Invalid
import QmkSonix.Report.Fifo
import QmkSonix.Oneshot.Model
import QmkSonix.Oneshot.Bookkeeping
import QmkSonix.Oneshot.Switch
import QmkSonix.Oneshot.Typing
import QmkSonix.Oneshot.Release
import QmkSonix.Oneshot.StuckKeys
import QmkSonix.Modifiers.Model
import QmkSonix.Modifiers.Stuck
import QmkSonix.Combo.Ready
import QmkSonix.Combo.Stale
import QmkSonix.Combo.Completed
import QmkSonix.Combo.Flush
import QmkSonix.Combo.Short
import QmkSonix.Combo.Packing
import QmkSonix.Matrix.Scan
import QmkSonix.Lib.Sweep
import QmkSonix.Debounce.Model
import QmkSonix.Debounce.Apart
import QmkSonix.Debounce.Defer
import QmkSonix.Debounce.Eager
import QmkSonix.Debounce.Asymmetric
import QmkSonix.Convert.Lexer
import QmkSonix.Convert.Model
import QmkSonix.TapDance.Runs
import QmkSonix.TapDance.Task
import QmkSonix.TapDance.Callbacks
import QmkSonix.TapDance.HeldMods
import QmkSonix.AutoShift.Typed
import QmkSonix.AutoShift.Shifts
import QmkSonix.KeyOverride.Held
import QmkSonix.SendString.Safe
import QmkSonix.DynamicKeymap.Playback
import QmkSonix.DynamicKeymap.Coherence
import QmkSonix.Unicode.Malformed
import QmkSonix.Unicode.RoundTrip
import QmkSonix.KeyLock.Locks
import QmkSonix.OpenRgb.Bounds
import QmkSonix.Encoder.Model
import QmkSonix.Encoder.Accounting
import QmkSonix.Encoder.Replay
import QmkSonix.Mousekey.Signs
import QmkSonix.Rgblight.Modes
import QmkSonix.Rgblight.Blinks
import QmkSonix.Rgblight.Animation
import QmkSonix.Rgblight.AnimationBounds
import QmkSonix.Sequencer.Pairing
import QmkSonix.Wpm.Model
import QmkSonix.Wpm.Bounds
import QmkSonix.ExternalEeprom.Address
import QmkSonix.ExternalEeprom.I2c
import QmkSonix.ExternalEeprom.I2cBlocks
import QmkSonix.ExternalEeprom.Spi
import QmkSonix.ExternalEeprom.SpiBlocks
import QmkSonix.ExternalEeprom.Transient
import QmkSonix.RgbMatrix.Idle
import QmkSonix.RgbMatrix.Tracker
import QmkSonix.RgbMatrix.Frames
import QmkSonix.RgbMatrix.Limits
import QmkSonix.RgbMatrix.Drawing
import QmkSonix.RgbMatrix.Indices
import QmkSonix.SharedScan.Cycle
import QmkSonix.Audio.Model
import QmkSonix.Audio.Stack
import QmkSonix.Audio.Refinement
import QmkSonix.Audio.Multiplexing
import QmkSonix.Audio.Melody
import QmkSonix.Audio.Tempo
import QmkSonix.Oled.Model
import QmkSonix.Oled.Cursor
import QmkSonix.Oled.Bounds
import QmkSonix.Oled.Render
import QmkSonix.Oled.Blocks
import QmkSonix.Midi.Model
import QmkSonix.Midi.Pairing
import QmkSonix.Midi.Wire
import QmkSonix.Midi.Usb
import QmkSonix.Music.Recorder
import QmkSonix.Music.Bounds
import QmkSonix.Lib.Codewords
import QmkSonix.Steno.Model
import QmkSonix.Steno.Packets
import QmkSonix.Ucis.Model
import QmkSonix.Ucis.Lookup
import QmkSonix.Ucis.Sessions
import QmkSonix.SpaceCadet.Model
import QmkSonix.SpaceCadet.Held
import QmkSonix.Lib.Strings
import QmkSonix.Terminal.Bounds
import QmkSonix.Split.Rpc
import QmkSonix.Split.RpcBuffers
import QmkSonix.Split.Connection
import QmkSonix.Ws2812.Model
import QmkSonix.Ws2812.Symbols
import QmkSonix.KeyOverride.Hygiene
import QmkSonix.Convert.MacroCode
import QmkSonix.Convert.RoundTrip
import QmkSonix.Keycodes.Model
import QmkSonix.Keycodes.Meaning
import QmkSonix.Keycodes.Layers
import QmkSonix.Usb.Report
import QmkSonix.Pipeline
