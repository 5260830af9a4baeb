import Chip8.CallStack
import Chip8.CommandLine.Argument
import Chip8.CommandLine.Parse
import Chip8.CommandLine.Program
import Chip8.CommandLine.Switch
import Chip8.Device.Controls
import Chip8.Device.Display
import Chip8.Device.Keyboard
import Chip8.Device.Speaker
import Chip8.Host.Basic
import Chip8.Host.Call
import Chip8.Host.Failure
import Chip8.Instruction.Basic
import Chip8.Instruction.Mnemonic
import Chip8.Instruction.Opcode
import Chip8.KeyLayout
import Chip8.Keypad
import Chip8.Layout
import Chip8.Loop
import Chip8.Machine.Basic
import Chip8.Machine.Execute
import Chip8.Machine.Report
import Chip8.Machine.Step
import Chip8.Main
import Chip8.Memory
import Chip8.Number.Basic
import Chip8.Number.Binary64
import Chip8.Number.Decimal
import Chip8.Number.Numeral
import Chip8.OptionValue
import Chip8.Pacer
import Chip8.Program.FileTree
import Chip8.Program.Load
import Chip8.Proofs.Instruction.Table
import Chip8.Proofs.Memory.Block
import Chip8.Remark
import Chip8.Screen
import Chip8.Session
import Chip8.Startup
import Chip8.Storage
import Chip8.Text.Hex
import Chip8.Text.Integer
import Chip8.Text.Lowercase
import Chip8.Text.Printable
import Chip8.Text.Quoted
import Chip8.Proofs.Machine.Effect
import Chip8.Proofs.Machine.Step
import Chip8.Proofs.Machine.Reachable
import Chip8.Proofs.Machine.Halting
import Chip8.Proofs.Machine.Trail
import Chip8.Proofs.Machine.Call
import Chip8.Proofs.Host.Activity
import Chip8.Proofs.Host.Devices
import Chip8.Proofs.Loop.Routine
import Chip8.Proofs.Startup.Stages
import Chip8.Proofs.Startup.Facility
import Chip8.Proofs.Startup.Closing
import Chip8.Proofs.Screen.Sprite
import Chip8.Proofs.Machine.Paint
import Chip8.Proofs.Loop.Announcement
import Chip8.Proofs.Loop.Round
import Chip8.Proofs.Loop.Course
import Chip8.Instruction.Lookup
import Chip8.Proofs.Instruction.Lookup
import Chip8.Proofs.Machine.Dispatch
import Chip8.Proofs.Machine.Tracing
import Chip8.Proofs.Machine.Grouping
import Chip8.Proofs.Machine.Drawing
import Chip8.Proofs.Machine.Superposition
import Chip8.Proofs.Device.HeldKeys
import Chip8.Proofs.Device.Exchange
import Chip8.Proofs.Device.Uninterrupted
import Chip8.Proofs.KeyLayout
import Chip8.Proofs.Program.Load
import Chip8.Proofs.Host.Reason
import Chip8.Proofs.Startup.Preparation
import Chip8.Proofs.Startup.Fresh
import Chip8.Proofs.Loop.Accounts
import Chip8.Proofs.Device.Grid
import Chip8.Proofs.Device.Terminal
import Chip8.Proofs.Machine.Arithmetic
import Chip8.Proofs.Machine.Tick
import Chip8.Proofs.Number.Rounding
import Chip8.Proofs.Pacing.Budget
import Chip8.Proofs.Pacing.Drift
import Chip8.Proofs.Machine.Timers
import Chip8.Proofs.Machine.KeyWait
import Chip8.Proofs.Memory.Stored
import Chip8.Proofs.Machine.Saving
import Chip8.Proofs.KeyLayout.Grammar
import Chip8.Proofs.Screen.History
import Chip8.Proofs.Memory.Outside
import Chip8.Proofs.CallStack
import Chip8.Proofs.Memory.History
import Chip8.Proofs.Device.Holding
import Chip8.Proofs.Text.Marks
import Chip8.Proofs.Text.Hex
import Chip8.Proofs.Machine.CrashReport
import Chip8.Proofs.Machine.Dump
import Chip8.Proofs.Device.Buzzer
