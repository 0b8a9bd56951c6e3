import Chip8.About
import Chip8.CallStack
import Chip8.CommandLine.LaunchOptions
import Chip8.CommandLine.Option
import Chip8.Dialect
import Chip8.Display
import Chip8.Failure
import Chip8.Fault
import Chip8.Font
import Chip8.Host.Audio
import Chip8.Host.Backend
import Chip8.Host.Command
import Chip8.Host.Desktop
import Chip8.Host.InputDevice
import Chip8.Host.Keymap
import Chip8.Host.Library
import Chip8.Host.Palette
import Chip8.Host.Playback
import Chip8.Host.SurfaceView
import Chip8.Host.TerminalInputs
import Chip8.Host.TerminalView
import Chip8.Host.View
import Chip8.Host.WindowInputs
import Chip8.Host.WindowView
import Chip8.Instruction
import Chip8.Instruction.Decode
import Chip8.Instruction.Table
import Chip8.Keypad
import Chip8.Launcher
import Chip8.Layout
import Chip8.Machine.Alu
import Chip8.Machine.Basic
import Chip8.Machine.Execute
import Chip8.Machine.Report
import Chip8.Machine.Sprite
import Chip8.Machine.Step
import Chip8.Main
import Chip8.Memory
import Chip8.Number.Double
import Chip8.Number.Length
import Chip8.Scheduler.Advance
import Chip8.Scheduler.Basic
import Chip8.Scheduler.Clock
import Chip8.Scheduler.Run
import Chip8.Scheduler.TimeLine
import Chip8.Session
import Chip8.Setting
import Chip8.Text.Blank
import Chip8.Text.DecimalDigit
import Chip8.Text.Hex
import Chip8.Text.Integer
import Chip8.Text.LowerCase
import Chip8.Timers
import Chip8.Proofs.Display
import Chip8.Proofs.Memory
import Chip8.Proofs.Sprite
import Chip8.Proofs.Drawing
import Chip8.Proofs.Execute
import Chip8.Proofs.Invariant
import Chip8.Proofs.History
import Chip8.Proofs.Step
import Chip8.Proofs.Faults
import Chip8.Proofs.Frame
import Chip8.Proofs.Countdown
import Chip8.Proofs.KeyWait
import Chip8.Proofs.Calls
import Chip8.Proofs.Decoding
import Chip8.Proofs.Configuration
import Chip8.Proofs.Orthogonality
import Chip8.Proofs.Settling
import Chip8.Proofs.Pace
import Chip8.Proofs.Slicing
import Chip8.Proofs.Calendar
import Chip8.Proofs.PowerOn
import Chip8.Proofs.Tracing
import Chip8.Proofs.Trail
import Chip8.Proofs.Pausing
import Chip8.Proofs.Edits
import Chip8.Proofs.Journal
import Chip8.Proofs.Showing
import Chip8.Proofs.Successor
import Chip8.Proofs.Arithmetic
import Chip8.Proofs.Loading
import Chip8.Proofs.Transfer
import Chip8.Proofs.Pixels
import Chip8.Proofs.Tally
import Chip8.Proofs.Buzzer
import Chip8.Proofs.Backlog
import Chip8.Proofs.Waiting
import Chip8.Proofs.Keystrokes
import Chip8.Proofs.Keymap
import Chip8.Proofs.WindowEvents
import Chip8.Proofs.HeldKeys
import Chip8.Proofs.Fields
import Chip8.Proofs.Numeral
import Chip8.Proofs.WrittenKeymap
import Chip8.Proofs.WrittenPalette
import Chip8.Proofs.Painting
import Chip8.Proofs.Clipping
import Chip8.Proofs.Parity
import Chip8.Proofs.HexText
import Chip8.Proofs.Readout
import Chip8.Proofs.Pad
import Chip8.Proofs.Blocks
