import PathTemplate.Unicode.CategoryRuns

/-!
Simple case folding, read as classes of characters that differ by case alone. Characters whose
full folding is longer than one character are alone in their class.
-/
namespace PathTemplate.Unicode

/-- Case classes with three or four members. -/
def largeCaseClasses : List (List Nat) :=
  [[0x4B, 0x6B, 0x212A], [0x53, 0x73, 0x17F], [0xC5, 0xE5, 0x212B], [0x1C4, 0x1C5, 0x1C6],
   [0x1C7, 0x1C8, 0x1C9], [0x1CA, 0x1CB, 0x1CC], [0x1F1, 0x1F2, 0x1F3], [0x392, 0x3B2, 0x3D0],
   [0x395, 0x3B5, 0x3F5], [0x398, 0x3B8, 0x3D1, 0x3F4], [0x345, 0x399, 0x3B9, 0x1FBE],
   [0x39A, 0x3BA, 0x3F0], [0xB5, 0x39C, 0x3BC], [0x3A0, 0x3C0, 0x3D6], [0x3A1, 0x3C1, 0x3F1],
   [0x3A3, 0x3C2, 0x3C3], [0x3A6, 0x3C6, 0x3D5], [0x3A9, 0x3C9, 0x2126], [0x412, 0x432, 0x1C80],
   [0x414, 0x434, 0x1C81], [0x41E, 0x43E, 0x1C82], [0x421, 0x441, 0x1C83],
   [0x422, 0x442, 0x1C84, 0x1C85], [0x42A, 0x44A, 0x1C86], [0x462, 0x463, 0x1C87],
   [0x1E60, 0x1E61, 0x1E9B], [0x1C88, 0xA64A, 0xA64B]]

/-- An entry (r, d) pairs every code point n of the run r with n + d. -/
def caseShifts : List (Run × Nat) :=
  [((0xC0, 0xC4, 1), 32), ((0xC6, 0xD6, 1), 32), ((0xD8, 0xDE, 1), 32), ((0xDF, 0xDF, 1), 7615),
   ((0xFF, 0xFF, 1), 121), ((0x100, 0x12E, 2), 1), ((0x132, 0x136, 2), 1), ((0x139, 0x147, 2), 1),
   ((0x14A, 0x176, 2), 1), ((0x179, 0x17D, 2), 1), ((0x180, 0x180, 1), 195),
   ((0x181, 0x181, 1), 210), ((0x182, 0x184, 2), 1), ((0x186, 0x186, 1), 206),
   ((0x187, 0x187, 1), 1), ((0x189, 0x18A, 1), 205), ((0x18B, 0x18B, 1), 1),
   ((0x18E, 0x18E, 1), 79), ((0x18F, 0x18F, 1), 202), ((0x190, 0x190, 1), 203),
   ((0x191, 0x191, 1), 1), ((0x193, 0x193, 1), 205), ((0x194, 0x194, 1), 207),
   ((0x195, 0x195, 1), 97), ((0x196, 0x196, 1), 211), ((0x197, 0x197, 1), 209),
   ((0x198, 0x198, 1), 1), ((0x19A, 0x19A, 1), 163), ((0x19B, 0x19B, 1), 42561),
   ((0x19C, 0x19C, 1), 211), ((0x19D, 0x19D, 1), 213), ((0x19E, 0x19E, 1), 130),
   ((0x19F, 0x19F, 1), 214), ((0x1A0, 0x1A4, 2), 1), ((0x1A6, 0x1A6, 1), 218),
   ((0x1A7, 0x1A7, 1), 1), ((0x1A9, 0x1A9, 1), 218), ((0x1AC, 0x1AC, 1), 1),
   ((0x1AE, 0x1AE, 1), 218), ((0x1AF, 0x1AF, 1), 1), ((0x1B1, 0x1B2, 1), 217),
   ((0x1B3, 0x1B5, 2), 1), ((0x1B7, 0x1B7, 1), 219), ((0x1B8, 0x1B8, 1), 1),
   ((0x1BC, 0x1BC, 1), 1), ((0x1BF, 0x1BF, 1), 56), ((0x1CD, 0x1DB, 2), 1),
   ((0x1DE, 0x1EE, 2), 1), ((0x1F4, 0x1F4, 1), 1), ((0x1F8, 0x21E, 2), 1), ((0x222, 0x232, 2), 1),
   ((0x23A, 0x23A, 1), 10795), ((0x23B, 0x23B, 1), 1), ((0x23E, 0x23E, 1), 10792),
   ((0x23F, 0x240, 1), 10815), ((0x241, 0x241, 1), 1), ((0x244, 0x244, 1), 69),
   ((0x245, 0x245, 1), 71), ((0x246, 0x24E, 2), 1), ((0x250, 0x250, 1), 10783),
   ((0x251, 0x251, 1), 10780), ((0x252, 0x252, 1), 10782), ((0x25C, 0x25C, 1), 42319),
   ((0x261, 0x261, 1), 42315), ((0x264, 0x264, 1), 42343), ((0x265, 0x265, 1), 42280),
   ((0x266, 0x266, 1), 42308), ((0x26A, 0x26A, 1), 42308), ((0x26B, 0x26B, 1), 10743),
   ((0x26C, 0x26C, 1), 42305), ((0x271, 0x271, 1), 10749), ((0x27D, 0x27D, 1), 10727),
   ((0x282, 0x282, 1), 42307), ((0x287, 0x287, 1), 42282), ((0x29D, 0x29D, 1), 42261),
   ((0x29E, 0x29E, 1), 42258), ((0x370, 0x372, 2), 1), ((0x376, 0x376, 1), 1),
   ((0x37B, 0x37D, 1), 130), ((0x37F, 0x37F, 1), 116), ((0x386, 0x386, 1), 38),
   ((0x388, 0x38A, 1), 37), ((0x38C, 0x38C, 1), 64), ((0x38E, 0x38F, 1), 63),
   ((0x390, 0x390, 1), 7235), ((0x391, 0x393, 2), 32), ((0x394, 0x396, 2), 32),
   ((0x397, 0x397, 1), 32), ((0x39B, 0x39D, 2), 32), ((0x39E, 0x39F, 1), 32),
   ((0x3A4, 0x3A5, 1), 32), ((0x3A7, 0x3A8, 1), 32), ((0x3AA, 0x3AB, 1), 32),
   ((0x3B0, 0x3B0, 1), 7219), ((0x3CF, 0x3CF, 1), 8), ((0x3D8, 0x3EE, 2), 1),
   ((0x3F2, 0x3F2, 1), 7), ((0x3F7, 0x3F7, 1), 1), ((0x3FA, 0x3FA, 1), 1),
   ((0x400, 0x40F, 1), 80), ((0x410, 0x411, 1), 32), ((0x413, 0x415, 2), 32),
   ((0x416, 0x41D, 1), 32), ((0x41F, 0x420, 1), 32), ((0x423, 0x429, 1), 32),
   ((0x42B, 0x42F, 1), 32), ((0x460, 0x460, 1), 1), ((0x464, 0x480, 2), 1),
   ((0x48A, 0x4BE, 2), 1), ((0x4C0, 0x4C0, 1), 15), ((0x4C1, 0x4CD, 2), 1),
   ((0x4D0, 0x52E, 2), 1), ((0x531, 0x556, 1), 48), ((0x10A0, 0x10C5, 1), 7264),
   ((0x10C7, 0x10C7, 1), 7264), ((0x10CD, 0x10CD, 1), 7264), ((0x10D0, 0x10FA, 1), 3008),
   ((0x10FD, 0x10FF, 1), 3008), ((0x13A0, 0x13EF, 1), 38864), ((0x13F0, 0x13F5, 1), 8),
   ((0x1C89, 0x1C89, 1), 1), ((0x1D79, 0x1D79, 1), 35332), ((0x1D7D, 0x1D7D, 1), 3814),
   ((0x1D8E, 0x1D8E, 1), 35384), ((0x1E00, 0x1E5E, 2), 1), ((0x1E62, 0x1E94, 2), 1),
   ((0x1EA0, 0x1EFE, 2), 1), ((0x1F00, 0x1F07, 1), 8), ((0x1F10, 0x1F15, 1), 8),
   ((0x1F20, 0x1F27, 1), 8), ((0x1F30, 0x1F37, 1), 8), ((0x1F40, 0x1F45, 1), 8),
   ((0x1F51, 0x1F57, 2), 8), ((0x1F60, 0x1F67, 1), 8), ((0x1F70, 0x1F71, 1), 74),
   ((0x1F72, 0x1F75, 1), 86), ((0x1F76, 0x1F77, 1), 100), ((0x1F78, 0x1F79, 1), 128),
   ((0x1F7A, 0x1F7B, 1), 112), ((0x1F7C, 0x1F7D, 1), 126), ((0x1F80, 0x1F87, 1), 8),
   ((0x1F90, 0x1F97, 1), 8), ((0x1FA0, 0x1FA7, 1), 8), ((0x1FB0, 0x1FB1, 1), 8),
   ((0x1FB3, 0x1FB3, 1), 9), ((0x1FC3, 0x1FC3, 1), 9), ((0x1FD0, 0x1FD1, 1), 8),
   ((0x1FE0, 0x1FE1, 1), 8), ((0x1FE5, 0x1FE5, 1), 7), ((0x1FF3, 0x1FF3, 1), 9),
   ((0x2132, 0x2132, 1), 28), ((0x2160, 0x216F, 1), 16), ((0x2183, 0x2183, 1), 1),
   ((0x24B6, 0x24CF, 1), 26), ((0x2C00, 0x2C2F, 1), 48), ((0x2C60, 0x2C60, 1), 1),
   ((0x2C67, 0x2C6B, 2), 1), ((0x2C72, 0x2C72, 1), 1), ((0x2C75, 0x2C75, 1), 1),
   ((0x2C80, 0x2CE2, 2), 1), ((0x2CEB, 0x2CED, 2), 1), ((0x2CF2, 0x2CF2, 1), 1),
   ((0xA640, 0xA648, 2), 1), ((0xA64C, 0xA66C, 2), 1), ((0xA680, 0xA69A, 2), 1),
   ((0xA722, 0xA72E, 2), 1), ((0xA732, 0xA76E, 2), 1), ((0xA779, 0xA77B, 2), 1),
   ((0xA77E, 0xA786, 2), 1), ((0xA78B, 0xA78B, 1), 1), ((0xA790, 0xA792, 2), 1),
   ((0xA794, 0xA794, 1), 48), ((0xA796, 0xA7A8, 2), 1), ((0xA7B3, 0xA7B3, 1), 928),
   ((0xA7B4, 0xA7C2, 2), 1), ((0xA7C7, 0xA7C9, 2), 1), ((0xA7CC, 0xA7CC, 1), 1),
   ((0xA7D0, 0xA7D0, 1), 1), ((0xA7D6, 0xA7DA, 2), 1), ((0xA7F5, 0xA7F5, 1), 1),
   ((0xFB05, 0xFB05, 1), 1), ((0xFF21, 0xFF3A, 1), 32), ((0x10400, 0x10427, 1), 40),
   ((0x104B0, 0x104D3, 1), 40), ((0x10570, 0x1057A, 1), 39), ((0x1057C, 0x1058A, 1), 39),
   ((0x1058C, 0x10592, 1), 39), ((0x10594, 0x10595, 1), 39), ((0x10C80, 0x10CB2, 1), 64),
   ((0x10D50, 0x10D65, 1), 32), ((0x118A0, 0x118BF, 1), 32), ((0x16E40, 0x16E5F, 1), 32),
   ((0x1E900, 0x1E921, 1), 34)]

/-- The other members of the class of an ASCII character: two letters have a third member. -/
def asciiCaseMates (n : Nat) : List Nat :=
  if n == 0x4B then [0x6B, 0x212A]
  else if n == 0x6B then [0x4B, 0x212A]
  else if n == 0x53 then [0x73, 0x17F]
  else if n == 0x73 then [0x53, 0x17F]
  else if 0x41 ≤ n && n ≤ 0x5A then [n + 32]
  else if 0x61 ≤ n && n ≤ 0x7A then [n - 32]
  else []

def shiftedMates (n : Nat) : List Nat :=
  caseShifts.flatMap fun (r, d) =>
    (if r.holds n then [n + d] else []) ++ (if d ≤ n && r.holds (n - d) then [n - d] else [])

def caseMates (n : Nat) : List Nat :=
  if n < 0x80 then asciiCaseMates n
  else match largeCaseClasses.find? (·.contains n) with
    | some ms => ms.filter (· != n)
    | none => shiftedMates n

/-- All characters that differ from this one by case alone, itself first. -/
def caseClass (c : Char) : List Char := c :: (caseMates c.toNat).map Char.ofNat

end PathTemplate.Unicode
