/-!
# Layout of the machine

The sizes and addresses that every part agrees on, and the font that is kept
at the bottom of memory.
-/
namespace Chip8

/-- Bytes of addressable memory. -/
abbrev memorySize : Nat := 0x1000

abbrev fontAddress : Nat := 0x000

/-- Where programs are loaded and started. -/
abbrev programAddress : Nat := 0x200

abbrev maxProgramSize : Nat := memorySize - programAddress

abbrev stackCapacity : Int := 64

abbrev registerCount : Nat := 16

abbrev keyCount : Nat := 16

abbrev screenWidth : Nat := 64

abbrev screenHeight : Nat := 32

/-- Rows, and so bytes, of one glyph. -/
abbrev glyphSize : Nat := 5

/-- Sixteen glyphs, one per hexadecimal digit, four pixels wide in the high half of each row. -/
def font : Array UInt8 := #[
  0xF0, 0x90, 0x90, 0x90, 0xF0,
  0x20, 0x60, 0x20, 0x20, 0x70,
  0xF0, 0x10, 0xF0, 0x80, 0xF0,
  0xF0, 0x10, 0xF0, 0x10, 0xF0,
  0x90, 0x90, 0xF0, 0x10, 0x10,
  0xF0, 0x80, 0xF0, 0x10, 0xF0,
  0xF0, 0x80, 0xF0, 0x90, 0xF0,
  0xF0, 0x10, 0x20, 0x40, 0x40,
  0xF0, 0x90, 0xF0, 0x90, 0xF0,
  0xF0, 0x90, 0xF0, 0x10, 0xF0,
  0xF0, 0x90, 0xF0, 0x90, 0x90,
  0xE0, 0x90, 0xE0, 0x90, 0xE0,
  0xF0, 0x80, 0x80, 0x80, 0xF0,
  0xE0, 0x90, 0x90, 0x90, 0xE0,
  0xF0, 0x80, 0xF0, 0x80, 0xF0,
  0xF0, 0x80, 0xF0, 0x80, 0x80]

end Chip8
