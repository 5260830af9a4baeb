import Chip8.Number.Numeral
import Chip8.Text.Hex
import Chip8.Text.Quoted

/-!
# Calls to the host

Everything the program asks of its host while it runs: a text terminal, a
window with a sound mixer, and a clock to sleep by. A call has a name and a
transcript form, which is the name with its arguments. The announcements of the
main loop take the same form, so that a rehearsed loop can be observed call by
call; so does the start of the loop itself.
-/
namespace Chip8

inductive TerminalCall where
  | acquire
  | cursor (visibility : Nat)
  | hideTyping
  | showTyping
  | readCharacters
  | readLines
  | release
  | beep
  | newPad (height width : Int)
  | resize (height width : Int)
  | clear
  | refresh
  | write (row column : Int) (text : String) (reversed : Bool)
  | showPad (bottom right : Int)
  deriving Repr, DecidableEq

/-- What is asked of a window. It takes its own size as it was asked for. -/
inductive WindowCall where
  | acquire
  | caption (text : String)
  | setSize (width height : Numeral)
  | frame (pixels : Array Bool) (width height : Int)
  | stretch (width height : Numeral)
  | paint
  | flip
  | release
  deriving Repr, DecidableEq

inductive MixerCall where
  | configure
  | acquire
  | waveform (samples : List UInt8)
  | volume (level : Binary64)
  | play
  | stop
  | release
  deriving Repr, DecidableEq

inductive FrontEnd where
  | window
  | terminal
  | null
  deriving Repr, DecidableEq

def FrontEnd.name : FrontEnd → String
  | window => "pygame"
  | terminal => "curses"
  | null => "null"

inductive HostCall where
  | terminal (call : TerminalCall)
  | window (call : WindowCall)
  | mixer (call : MixerCall)
  | sleep (delay : Binary64)
  /-- The loop hands a frame to the display. -/
  | draw (pixels : Array Bool)
  /-- The loop sets the title. -/
  | title (text : String)
  /-- The loop sets the buzzer; the status line is that of the machine. -/
  | buzzer (on : Bool) (status : String)
  /-- The loop begins, with these kinds of controls, display and speaker. -/
  | run (controls display speaker : FrontEnd)
  deriving Repr, DecidableEq

namespace TerminalCall

def name : TerminalCall → String
  | acquire => "curses.initscr"
  | cursor _ => "curses.curs_set"
  | hideTyping => "curses.noecho"
  | showTyping => "curses.echo"
  | readCharacters => "curses.cbreak"
  | readLines => "curses.nocbreak"
  | release => "curses.endwin"
  | beep => "curses.beep"
  | newPad .. => "curses.newpad"
  | resize .. => "curses.resizeterm"
  | clear => "screen.clear"
  | refresh => "screen.refresh"
  | write .. => "pad.addstr"
  | showPad .. => "pad.refresh"

def arguments : TerminalCall → List String
  | cursor visibility => [toString visibility]
  | newPad height width => [toString height, toString width]
  | resize height width => [toString height, toString width]
  | write row column text reversed =>
      [toString row, toString column, Text.quoteInTranscript text, if reversed then "R" else "N"]
  | showPad bottom right => ["0", "0", "0", "0", toString bottom, toString right]
  | _ => []

end TerminalCall

def sizeText (width height : Numeral) : String :=
  "[" ++ width.inTranscript ++ ", " ++ height.inTranscript ++ "]"

/-- A width and a height in pixels, as transcripts show them. -/
def pixelSizeText (width height : Int) : String :=
  sizeText (.int width) (.int height)

namespace WindowCall

/-- The colour of a pixel, as red, green and blue. -/
def colour (lit : Bool) : String := if lit then "dddddd" else "222222"

def name : WindowCall → String
  | acquire => "pygame.display.init"
  | caption _ => "pygame.display.set_caption"
  | setSize .. => "pygame.display.set_mode"
  | frame .. => "pygame.image.frombuffer"
  | stretch .. => "pygame.transform.scale"
  | paint => "surface.blit"
  | flip => "pygame.display.flip"
  | release => "pygame.display.quit"

def arguments : WindowCall → List String
  | caption text => [Text.quoteInTranscript text]
  | setSize width height => [sizeText width height]
  | frame pixels width height =>
      [Text.runsText colour pixels.toList, pixelSizeText width height,
        Text.quoteInTranscript "RGB"]
  | stretch width height => ["frame", sizeText width height]
  | paint => ["scaled", pixelSizeText 0 0]
  | _ => []

end WindowCall

namespace MixerCall

def name : MixerCall → String
  | configure => "pygame.mixer.pre_init"
  | acquire => "pygame.mixer.init"
  | waveform _ => "pygame.mixer.Sound"
  | volume _ => "sound.set_volume"
  | play => "sound.play"
  | stop => "sound.stop"
  | release => "pygame.mixer.quit"

/-- Samples a second. -/
def playbackRate : Nat := 44100

def arguments : MixerCall → List String
  | configure =>
      toString playbackRate ::
        ["allowedchanges=0", "buffer=512", "channels=1", "size=8"].map Text.quoteInTranscript
  | waveform samples =>
      [Text.runsText (fun b => String.ofList (Text.hexByte b)) samples]
  | volume level => [Text.hexField 16 level.toBits]
  | play => ["-1"]
  | _ => []

end MixerCall

namespace HostCall

def name : HostCall → String
  | terminal call => call.name
  | window call => call.name
  | mixer call => call.name
  | sleep _ => "sleep"
  | draw _ => "draw"
  | title _ => "title"
  | buzzer .. => "buzzer"
  | run .. => "run"

def arguments : HostCall → List String
  | terminal call => call.arguments
  | window call => call.arguments
  | mixer call => call.arguments
  | sleep delay => [Text.hexField 16 delay.toBits]
  | draw pixels => [Text.quoteInTranscript (Text.hexFlags pixels)]
  | title text => [Text.quoteInTranscript text]
  | buzzer on status => [if on then "true" else "false", Text.quoteInTranscript status]
  | run controls display speaker =>
      ["cpu", "i_" ++ controls.name, "r_" ++ display.name, "a_" ++ speaker.name]

def render (c : HostCall) : String :=
  c.name ++ "(" ++ String.intercalate "," c.arguments ++ ")"

def isAnnouncement : HostCall → Bool
  | draw _ => true
  | title _ => true
  | buzzer .. => true
  | _ => false

/-- Whether a list holds the name or the transcript form of a call. -/
def isAmong (texts : List String) (c : HostCall) : Bool :=
  texts.any fun text => text == c.name || text == c.render

end HostCall
end Chip8
