import Observable.Text.Ranges
/-! Upper and lower case of Unicode text. -/
namespace Observable.Text

/-- A run of characters whose other case lies at a fixed distance. -/
structure CaseShift where
  range : CodeRange
  delta : Int

namespace CaseShift

/-- The character at the distance of the run. -/
def apply (s : CaseShift) (c : Char) : Char :=
  Char.ofNat ((c.toNat : Int) + s.delta).toNat

end CaseShift

/-- A character whose other case is several characters. -/
structure CaseExpansion where
  code : Nat
  result : List Char

/-- Lower-case runs outside ASCII with the distance to upper case. -/
def upperShifts : List CaseShift := [
    ⟨⟨0xB5, 0xB5, 1⟩, 0x2E7⟩, ⟨⟨0xE0, 0xF6, 1⟩, -0x20⟩, ⟨⟨0xF8, 0xFE, 1⟩, -0x20⟩,
    ⟨⟨0xFF, 0xFF, 1⟩, 0x79⟩, ⟨⟨0x101, 0x12F, 2⟩, -0x1⟩, ⟨⟨0x131, 0x131, 1⟩, -0xE8⟩,
    ⟨⟨0x133, 0x137, 2⟩, -0x1⟩, ⟨⟨0x13A, 0x148, 2⟩, -0x1⟩, ⟨⟨0x14B, 0x177, 2⟩, -0x1⟩,
    ⟨⟨0x17A, 0x17E, 2⟩, -0x1⟩, ⟨⟨0x17F, 0x17F, 1⟩, -0x12C⟩, ⟨⟨0x180, 0x180, 1⟩, 0xC3⟩,
    ⟨⟨0x183, 0x185, 2⟩, -0x1⟩, ⟨⟨0x188, 0x188, 1⟩, -0x1⟩, ⟨⟨0x18C, 0x18C, 1⟩, -0x1⟩,
    ⟨⟨0x192, 0x192, 1⟩, -0x1⟩, ⟨⟨0x195, 0x195, 1⟩, 0x61⟩, ⟨⟨0x199, 0x199, 1⟩, -0x1⟩,
    ⟨⟨0x19A, 0x19A, 1⟩, 0xA3⟩, ⟨⟨0x19B, 0x19B, 1⟩, 0xA641⟩, ⟨⟨0x19E, 0x19E, 1⟩, 0x82⟩,
    ⟨⟨0x1A1, 0x1A5, 2⟩, -0x1⟩, ⟨⟨0x1A8, 0x1A8, 1⟩, -0x1⟩, ⟨⟨0x1AD, 0x1AD, 1⟩, -0x1⟩,
    ⟨⟨0x1B0, 0x1B0, 1⟩, -0x1⟩, ⟨⟨0x1B4, 0x1B6, 2⟩, -0x1⟩, ⟨⟨0x1B9, 0x1B9, 1⟩, -0x1⟩,
    ⟨⟨0x1BD, 0x1BD, 1⟩, -0x1⟩, ⟨⟨0x1BF, 0x1BF, 1⟩, 0x38⟩, ⟨⟨0x1C5, 0x1C5, 1⟩, -0x1⟩,
    ⟨⟨0x1C6, 0x1C6, 1⟩, -0x2⟩, ⟨⟨0x1C8, 0x1C8, 1⟩, -0x1⟩, ⟨⟨0x1C9, 0x1C9, 1⟩, -0x2⟩,
    ⟨⟨0x1CB, 0x1CB, 1⟩, -0x1⟩, ⟨⟨0x1CC, 0x1CC, 1⟩, -0x2⟩, ⟨⟨0x1CE, 0x1DC, 2⟩, -0x1⟩,
    ⟨⟨0x1DD, 0x1DD, 1⟩, -0x4F⟩, ⟨⟨0x1DF, 0x1EF, 2⟩, -0x1⟩, ⟨⟨0x1F2, 0x1F2, 1⟩, -0x1⟩,
    ⟨⟨0x1F3, 0x1F3, 1⟩, -0x2⟩, ⟨⟨0x1F5, 0x1F5, 1⟩, -0x1⟩, ⟨⟨0x1F9, 0x21F, 2⟩, -0x1⟩,
    ⟨⟨0x223, 0x233, 2⟩, -0x1⟩, ⟨⟨0x23C, 0x23C, 1⟩, -0x1⟩, ⟨⟨0x23F, 0x240, 1⟩, 0x2A3F⟩,
    ⟨⟨0x242, 0x242, 1⟩, -0x1⟩, ⟨⟨0x247, 0x24F, 2⟩, -0x1⟩, ⟨⟨0x250, 0x250, 1⟩, 0x2A1F⟩,
    ⟨⟨0x251, 0x251, 1⟩, 0x2A1C⟩, ⟨⟨0x252, 0x252, 1⟩, 0x2A1E⟩, ⟨⟨0x253, 0x253, 1⟩, -0xD2⟩,
    ⟨⟨0x254, 0x254, 1⟩, -0xCE⟩, ⟨⟨0x256, 0x257, 1⟩, -0xCD⟩, ⟨⟨0x259, 0x259, 1⟩, -0xCA⟩,
    ⟨⟨0x25B, 0x25B, 1⟩, -0xCB⟩, ⟨⟨0x25C, 0x25C, 1⟩, 0xA54F⟩, ⟨⟨0x260, 0x260, 1⟩, -0xCD⟩,
    ⟨⟨0x261, 0x261, 1⟩, 0xA54B⟩, ⟨⟨0x263, 0x263, 1⟩, -0xCF⟩, ⟨⟨0x264, 0x264, 1⟩, 0xA567⟩,
    ⟨⟨0x265, 0x265, 1⟩, 0xA528⟩, ⟨⟨0x266, 0x266, 1⟩, 0xA544⟩, ⟨⟨0x268, 0x268, 1⟩, -0xD1⟩,
    ⟨⟨0x269, 0x269, 1⟩, -0xD3⟩, ⟨⟨0x26A, 0x26A, 1⟩, 0xA544⟩, ⟨⟨0x26B, 0x26B, 1⟩, 0x29F7⟩,
    ⟨⟨0x26C, 0x26C, 1⟩, 0xA541⟩, ⟨⟨0x26F, 0x26F, 1⟩, -0xD3⟩, ⟨⟨0x271, 0x271, 1⟩, 0x29FD⟩,
    ⟨⟨0x272, 0x272, 1⟩, -0xD5⟩, ⟨⟨0x275, 0x275, 1⟩, -0xD6⟩, ⟨⟨0x27D, 0x27D, 1⟩, 0x29E7⟩,
    ⟨⟨0x280, 0x280, 1⟩, -0xDA⟩, ⟨⟨0x282, 0x282, 1⟩, 0xA543⟩, ⟨⟨0x283, 0x283, 1⟩, -0xDA⟩,
    ⟨⟨0x287, 0x287, 1⟩, 0xA52A⟩, ⟨⟨0x288, 0x288, 1⟩, -0xDA⟩, ⟨⟨0x289, 0x289, 1⟩, -0x45⟩,
    ⟨⟨0x28A, 0x28B, 1⟩, -0xD9⟩, ⟨⟨0x28C, 0x28C, 1⟩, -0x47⟩, ⟨⟨0x292, 0x292, 1⟩, -0xDB⟩,
    ⟨⟨0x29D, 0x29D, 1⟩, 0xA515⟩, ⟨⟨0x29E, 0x29E, 1⟩, 0xA512⟩, ⟨⟨0x345, 0x345, 1⟩, 0x54⟩,
    ⟨⟨0x371, 0x373, 2⟩, -0x1⟩, ⟨⟨0x377, 0x377, 1⟩, -0x1⟩, ⟨⟨0x37B, 0x37D, 1⟩, 0x82⟩,
    ⟨⟨0x3AC, 0x3AC, 1⟩, -0x26⟩, ⟨⟨0x3AD, 0x3AF, 1⟩, -0x25⟩, ⟨⟨0x3B1, 0x3C1, 1⟩, -0x20⟩,
    ⟨⟨0x3C2, 0x3C2, 1⟩, -0x1F⟩, ⟨⟨0x3C3, 0x3CB, 1⟩, -0x20⟩, ⟨⟨0x3CC, 0x3CC, 1⟩, -0x40⟩,
    ⟨⟨0x3CD, 0x3CE, 1⟩, -0x3F⟩, ⟨⟨0x3D0, 0x3D0, 1⟩, -0x3E⟩, ⟨⟨0x3D1, 0x3D1, 1⟩, -0x39⟩,
    ⟨⟨0x3D5, 0x3D5, 1⟩, -0x2F⟩, ⟨⟨0x3D6, 0x3D6, 1⟩, -0x36⟩, ⟨⟨0x3D7, 0x3D7, 1⟩, -0x8⟩,
    ⟨⟨0x3D9, 0x3EF, 2⟩, -0x1⟩, ⟨⟨0x3F0, 0x3F0, 1⟩, -0x56⟩, ⟨⟨0x3F1, 0x3F1, 1⟩, -0x50⟩,
    ⟨⟨0x3F2, 0x3F2, 1⟩, 0x7⟩, ⟨⟨0x3F3, 0x3F3, 1⟩, -0x74⟩, ⟨⟨0x3F5, 0x3F5, 1⟩, -0x60⟩,
    ⟨⟨0x3F8, 0x3F8, 1⟩, -0x1⟩, ⟨⟨0x3FB, 0x3FB, 1⟩, -0x1⟩, ⟨⟨0x430, 0x44F, 1⟩, -0x20⟩,
    ⟨⟨0x450, 0x45F, 1⟩, -0x50⟩, ⟨⟨0x461, 0x481, 2⟩, -0x1⟩, ⟨⟨0x48B, 0x4BF, 2⟩, -0x1⟩,
    ⟨⟨0x4C2, 0x4CE, 2⟩, -0x1⟩, ⟨⟨0x4CF, 0x4CF, 1⟩, -0xF⟩, ⟨⟨0x4D1, 0x52F, 2⟩, -0x1⟩,
    ⟨⟨0x561, 0x586, 1⟩, -0x30⟩, ⟨⟨0x10D0, 0x10FA, 1⟩, 0xBC0⟩, ⟨⟨0x10FD, 0x10FF, 1⟩, 0xBC0⟩,
    ⟨⟨0x13F8, 0x13FD, 1⟩, -0x8⟩, ⟨⟨0x1C80, 0x1C80, 1⟩, -0x186E⟩, ⟨⟨0x1C81, 0x1C81, 1⟩, -0x186D⟩,
    ⟨⟨0x1C82, 0x1C82, 1⟩, -0x1864⟩, ⟨⟨0x1C83, 0x1C84, 1⟩, -0x1862⟩, ⟨⟨0x1C85, 0x1C85, 1⟩, -0x1863⟩,
    ⟨⟨0x1C86, 0x1C86, 1⟩, -0x185C⟩, ⟨⟨0x1C87, 0x1C87, 1⟩, -0x1825⟩, ⟨⟨0x1C88, 0x1C88, 1⟩, 0x89C2⟩,
    ⟨⟨0x1C8A, 0x1C8A, 1⟩, -0x1⟩, ⟨⟨0x1D79, 0x1D79, 1⟩, 0x8A04⟩, ⟨⟨0x1D7D, 0x1D7D, 1⟩, 0xEE6⟩,
    ⟨⟨0x1D8E, 0x1D8E, 1⟩, 0x8A38⟩, ⟨⟨0x1E01, 0x1E95, 2⟩, -0x1⟩, ⟨⟨0x1E9B, 0x1E9B, 1⟩, -0x3B⟩,
    ⟨⟨0x1EA1, 0x1EFF, 2⟩, -0x1⟩, ⟨⟨0x1F00, 0x1F07, 1⟩, 0x8⟩, ⟨⟨0x1F10, 0x1F15, 1⟩, 0x8⟩,
    ⟨⟨0x1F20, 0x1F27, 1⟩, 0x8⟩, ⟨⟨0x1F30, 0x1F37, 1⟩, 0x8⟩, ⟨⟨0x1F40, 0x1F45, 1⟩, 0x8⟩,
    ⟨⟨0x1F51, 0x1F57, 2⟩, 0x8⟩, ⟨⟨0x1F60, 0x1F67, 1⟩, 0x8⟩, ⟨⟨0x1F70, 0x1F71, 1⟩, 0x4A⟩,
    ⟨⟨0x1F72, 0x1F75, 1⟩, 0x56⟩, ⟨⟨0x1F76, 0x1F77, 1⟩, 0x64⟩, ⟨⟨0x1F78, 0x1F79, 1⟩, 0x80⟩,
    ⟨⟨0x1F7A, 0x1F7B, 1⟩, 0x70⟩, ⟨⟨0x1F7C, 0x1F7D, 1⟩, 0x7E⟩, ⟨⟨0x1FB0, 0x1FB1, 1⟩, 0x8⟩,
    ⟨⟨0x1FBE, 0x1FBE, 1⟩, -0x1C25⟩, ⟨⟨0x1FD0, 0x1FD1, 1⟩, 0x8⟩, ⟨⟨0x1FE0, 0x1FE1, 1⟩, 0x8⟩,
    ⟨⟨0x1FE5, 0x1FE5, 1⟩, 0x7⟩, ⟨⟨0x214E, 0x214E, 1⟩, -0x1C⟩, ⟨⟨0x2170, 0x217F, 1⟩, -0x10⟩,
    ⟨⟨0x2184, 0x2184, 1⟩, -0x1⟩, ⟨⟨0x24D0, 0x24E9, 1⟩, -0x1A⟩, ⟨⟨0x2C30, 0x2C5F, 1⟩, -0x30⟩,
    ⟨⟨0x2C61, 0x2C61, 1⟩, -0x1⟩, ⟨⟨0x2C65, 0x2C65, 1⟩, -0x2A2B⟩, ⟨⟨0x2C66, 0x2C66, 1⟩, -0x2A28⟩,
    ⟨⟨0x2C68, 0x2C6C, 2⟩, -0x1⟩, ⟨⟨0x2C73, 0x2C73, 1⟩, -0x1⟩, ⟨⟨0x2C76, 0x2C76, 1⟩, -0x1⟩,
    ⟨⟨0x2C81, 0x2CE3, 2⟩, -0x1⟩, ⟨⟨0x2CEC, 0x2CEE, 2⟩, -0x1⟩, ⟨⟨0x2CF3, 0x2CF3, 1⟩, -0x1⟩,
    ⟨⟨0x2D00, 0x2D25, 1⟩, -0x1C60⟩, ⟨⟨0x2D27, 0x2D27, 1⟩, -0x1C60⟩, ⟨⟨0x2D2D, 0x2D2D, 1⟩, -0x1C60⟩,
    ⟨⟨0xA641, 0xA66D, 2⟩, -0x1⟩, ⟨⟨0xA681, 0xA69B, 2⟩, -0x1⟩, ⟨⟨0xA723, 0xA72F, 2⟩, -0x1⟩,
    ⟨⟨0xA733, 0xA76F, 2⟩, -0x1⟩, ⟨⟨0xA77A, 0xA77C, 2⟩, -0x1⟩, ⟨⟨0xA77F, 0xA787, 2⟩, -0x1⟩,
    ⟨⟨0xA78C, 0xA78C, 1⟩, -0x1⟩, ⟨⟨0xA791, 0xA793, 2⟩, -0x1⟩, ⟨⟨0xA794, 0xA794, 1⟩, 0x30⟩,
    ⟨⟨0xA797, 0xA7A9, 2⟩, -0x1⟩, ⟨⟨0xA7B5, 0xA7C3, 2⟩, -0x1⟩, ⟨⟨0xA7C8, 0xA7CA, 2⟩, -0x1⟩,
    ⟨⟨0xA7CD, 0xA7DB, 2⟩, -0x1⟩, ⟨⟨0xA7F6, 0xA7F6, 1⟩, -0x1⟩, ⟨⟨0xAB53, 0xAB53, 1⟩, -0x3A0⟩,
    ⟨⟨0xAB70, 0xABBF, 1⟩, -0x97D0⟩, ⟨⟨0xFF41, 0xFF5A, 1⟩, -0x20⟩, ⟨⟨0x10428, 0x1044F, 1⟩, -0x28⟩,
    ⟨⟨0x104D8, 0x104FB, 1⟩, -0x28⟩, ⟨⟨0x10597, 0x105A1, 1⟩, -0x27⟩, ⟨⟨0x105A3, 0x105B1, 1⟩, -0x27⟩,
    ⟨⟨0x105B3, 0x105B9, 1⟩, -0x27⟩, ⟨⟨0x105BB, 0x105BC, 1⟩, -0x27⟩, ⟨⟨0x10CC0, 0x10CF2, 1⟩, -0x40⟩,
    ⟨⟨0x10D70, 0x10D85, 1⟩, -0x20⟩, ⟨⟨0x118C0, 0x118DF, 1⟩, -0x20⟩, ⟨⟨0x16E60, 0x16E7F, 1⟩, -0x20⟩,
    ⟨⟨0x16EBB, 0x16ED3, 1⟩, -0x1B⟩, ⟨⟨0x1E922, 0x1E943, 1⟩, -0x22⟩]

def upperExpansions : List CaseExpansion := [
    ⟨0xDF, ['\u0053', '\u0053']⟩, ⟨0x149, ['\u02bc', '\u004e']⟩, ⟨0x1F0, ['\u004a', '\u030c']⟩,
    ⟨0x390, ['\u0399', '\u0308', '\u0301']⟩, ⟨0x3B0, ['\u03a5', '\u0308', '\u0301']⟩,
    ⟨0x587, ['\u0535', '\u0552']⟩, ⟨0x1E96, ['\u0048', '\u0331']⟩, ⟨0x1E97, ['\u0054', '\u0308']⟩,
    ⟨0x1E98, ['\u0057', '\u030a']⟩, ⟨0x1E99, ['\u0059', '\u030a']⟩, ⟨0x1E9A, ['\u0041', '\u02be']⟩,
    ⟨0x1F50, ['\u03a5', '\u0313']⟩, ⟨0x1F52, ['\u03a5', '\u0313', '\u0300']⟩,
    ⟨0x1F54, ['\u03a5', '\u0313', '\u0301']⟩, ⟨0x1F56, ['\u03a5', '\u0313', '\u0342']⟩,
    ⟨0x1F80, ['\u1f08', '\u0399']⟩, ⟨0x1F81, ['\u1f09', '\u0399']⟩, ⟨0x1F82, ['\u1f0a', '\u0399']⟩,
    ⟨0x1F83, ['\u1f0b', '\u0399']⟩, ⟨0x1F84, ['\u1f0c', '\u0399']⟩, ⟨0x1F85, ['\u1f0d', '\u0399']⟩,
    ⟨0x1F86, ['\u1f0e', '\u0399']⟩, ⟨0x1F87, ['\u1f0f', '\u0399']⟩, ⟨0x1F88, ['\u1f08', '\u0399']⟩,
    ⟨0x1F89, ['\u1f09', '\u0399']⟩, ⟨0x1F8A, ['\u1f0a', '\u0399']⟩, ⟨0x1F8B, ['\u1f0b', '\u0399']⟩,
    ⟨0x1F8C, ['\u1f0c', '\u0399']⟩, ⟨0x1F8D, ['\u1f0d', '\u0399']⟩, ⟨0x1F8E, ['\u1f0e', '\u0399']⟩,
    ⟨0x1F8F, ['\u1f0f', '\u0399']⟩, ⟨0x1F90, ['\u1f28', '\u0399']⟩, ⟨0x1F91, ['\u1f29', '\u0399']⟩,
    ⟨0x1F92, ['\u1f2a', '\u0399']⟩, ⟨0x1F93, ['\u1f2b', '\u0399']⟩, ⟨0x1F94, ['\u1f2c', '\u0399']⟩,
    ⟨0x1F95, ['\u1f2d', '\u0399']⟩, ⟨0x1F96, ['\u1f2e', '\u0399']⟩, ⟨0x1F97, ['\u1f2f', '\u0399']⟩,
    ⟨0x1F98, ['\u1f28', '\u0399']⟩, ⟨0x1F99, ['\u1f29', '\u0399']⟩, ⟨0x1F9A, ['\u1f2a', '\u0399']⟩,
    ⟨0x1F9B, ['\u1f2b', '\u0399']⟩, ⟨0x1F9C, ['\u1f2c', '\u0399']⟩, ⟨0x1F9D, ['\u1f2d', '\u0399']⟩,
    ⟨0x1F9E, ['\u1f2e', '\u0399']⟩, ⟨0x1F9F, ['\u1f2f', '\u0399']⟩, ⟨0x1FA0, ['\u1f68', '\u0399']⟩,
    ⟨0x1FA1, ['\u1f69', '\u0399']⟩, ⟨0x1FA2, ['\u1f6a', '\u0399']⟩, ⟨0x1FA3, ['\u1f6b', '\u0399']⟩,
    ⟨0x1FA4, ['\u1f6c', '\u0399']⟩, ⟨0x1FA5, ['\u1f6d', '\u0399']⟩, ⟨0x1FA6, ['\u1f6e', '\u0399']⟩,
    ⟨0x1FA7, ['\u1f6f', '\u0399']⟩, ⟨0x1FA8, ['\u1f68', '\u0399']⟩, ⟨0x1FA9, ['\u1f69', '\u0399']⟩,
    ⟨0x1FAA, ['\u1f6a', '\u0399']⟩, ⟨0x1FAB, ['\u1f6b', '\u0399']⟩, ⟨0x1FAC, ['\u1f6c', '\u0399']⟩,
    ⟨0x1FAD, ['\u1f6d', '\u0399']⟩, ⟨0x1FAE, ['\u1f6e', '\u0399']⟩, ⟨0x1FAF, ['\u1f6f', '\u0399']⟩,
    ⟨0x1FB2, ['\u1fba', '\u0399']⟩, ⟨0x1FB3, ['\u0391', '\u0399']⟩, ⟨0x1FB4, ['\u0386', '\u0399']⟩,
    ⟨0x1FB6, ['\u0391', '\u0342']⟩, ⟨0x1FB7, ['\u0391', '\u0342', '\u0399']⟩,
    ⟨0x1FBC, ['\u0391', '\u0399']⟩, ⟨0x1FC2, ['\u1fca', '\u0399']⟩, ⟨0x1FC3, ['\u0397', '\u0399']⟩,
    ⟨0x1FC4, ['\u0389', '\u0399']⟩, ⟨0x1FC6, ['\u0397', '\u0342']⟩,
    ⟨0x1FC7, ['\u0397', '\u0342', '\u0399']⟩, ⟨0x1FCC, ['\u0397', '\u0399']⟩,
    ⟨0x1FD2, ['\u0399', '\u0308', '\u0300']⟩, ⟨0x1FD3, ['\u0399', '\u0308', '\u0301']⟩,
    ⟨0x1FD6, ['\u0399', '\u0342']⟩, ⟨0x1FD7, ['\u0399', '\u0308', '\u0342']⟩,
    ⟨0x1FE2, ['\u03a5', '\u0308', '\u0300']⟩, ⟨0x1FE3, ['\u03a5', '\u0308', '\u0301']⟩,
    ⟨0x1FE4, ['\u03a1', '\u0313']⟩, ⟨0x1FE6, ['\u03a5', '\u0342']⟩,
    ⟨0x1FE7, ['\u03a5', '\u0308', '\u0342']⟩, ⟨0x1FF2, ['\u1ffa', '\u0399']⟩,
    ⟨0x1FF3, ['\u03a9', '\u0399']⟩, ⟨0x1FF4, ['\u038f', '\u0399']⟩, ⟨0x1FF6, ['\u03a9', '\u0342']⟩,
    ⟨0x1FF7, ['\u03a9', '\u0342', '\u0399']⟩, ⟨0x1FFC, ['\u03a9', '\u0399']⟩,
    ⟨0xFB00, ['\u0046', '\u0046']⟩, ⟨0xFB01, ['\u0046', '\u0049']⟩, ⟨0xFB02, ['\u0046', '\u004c']⟩,
    ⟨0xFB03, ['\u0046', '\u0046', '\u0049']⟩, ⟨0xFB04, ['\u0046', '\u0046', '\u004c']⟩,
    ⟨0xFB05, ['\u0053', '\u0054']⟩, ⟨0xFB06, ['\u0053', '\u0054']⟩, ⟨0xFB13, ['\u0544', '\u0546']⟩,
    ⟨0xFB14, ['\u0544', '\u0535']⟩, ⟨0xFB15, ['\u0544', '\u053b']⟩, ⟨0xFB16, ['\u054e', '\u0546']⟩,
    ⟨0xFB17, ['\u0544', '\u053d']⟩]

/-- Upper-case runs outside ASCII with the distance to lower case. -/
def lowerShifts : List CaseShift := [
    ⟨⟨0xC0, 0xD6, 1⟩, 0x20⟩, ⟨⟨0xD8, 0xDE, 1⟩, 0x20⟩, ⟨⟨0x100, 0x12E, 2⟩, 0x1⟩,
    ⟨⟨0x132, 0x136, 2⟩, 0x1⟩, ⟨⟨0x139, 0x147, 2⟩, 0x1⟩, ⟨⟨0x14A, 0x176, 2⟩, 0x1⟩,
    ⟨⟨0x178, 0x178, 1⟩, -0x79⟩, ⟨⟨0x179, 0x17D, 2⟩, 0x1⟩, ⟨⟨0x181, 0x181, 1⟩, 0xD2⟩,
    ⟨⟨0x182, 0x184, 2⟩, 0x1⟩, ⟨⟨0x186, 0x186, 1⟩, 0xCE⟩, ⟨⟨0x187, 0x187, 1⟩, 0x1⟩,
    ⟨⟨0x189, 0x18A, 1⟩, 0xCD⟩, ⟨⟨0x18B, 0x18B, 1⟩, 0x1⟩, ⟨⟨0x18E, 0x18E, 1⟩, 0x4F⟩,
    ⟨⟨0x18F, 0x18F, 1⟩, 0xCA⟩, ⟨⟨0x190, 0x190, 1⟩, 0xCB⟩, ⟨⟨0x191, 0x191, 1⟩, 0x1⟩,
    ⟨⟨0x193, 0x193, 1⟩, 0xCD⟩, ⟨⟨0x194, 0x194, 1⟩, 0xCF⟩, ⟨⟨0x196, 0x196, 1⟩, 0xD3⟩,
    ⟨⟨0x197, 0x197, 1⟩, 0xD1⟩, ⟨⟨0x198, 0x198, 1⟩, 0x1⟩, ⟨⟨0x19C, 0x19C, 1⟩, 0xD3⟩,
    ⟨⟨0x19D, 0x19D, 1⟩, 0xD5⟩, ⟨⟨0x19F, 0x19F, 1⟩, 0xD6⟩, ⟨⟨0x1A0, 0x1A4, 2⟩, 0x1⟩,
    ⟨⟨0x1A6, 0x1A6, 1⟩, 0xDA⟩, ⟨⟨0x1A7, 0x1A7, 1⟩, 0x1⟩, ⟨⟨0x1A9, 0x1A9, 1⟩, 0xDA⟩,
    ⟨⟨0x1AC, 0x1AC, 1⟩, 0x1⟩, ⟨⟨0x1AE, 0x1AE, 1⟩, 0xDA⟩, ⟨⟨0x1AF, 0x1AF, 1⟩, 0x1⟩,
    ⟨⟨0x1B1, 0x1B2, 1⟩, 0xD9⟩, ⟨⟨0x1B3, 0x1B5, 2⟩, 0x1⟩, ⟨⟨0x1B7, 0x1B7, 1⟩, 0xDB⟩,
    ⟨⟨0x1B8, 0x1B8, 1⟩, 0x1⟩, ⟨⟨0x1BC, 0x1BC, 1⟩, 0x1⟩, ⟨⟨0x1C4, 0x1C4, 1⟩, 0x2⟩,
    ⟨⟨0x1C5, 0x1C5, 1⟩, 0x1⟩, ⟨⟨0x1C7, 0x1C7, 1⟩, 0x2⟩, ⟨⟨0x1C8, 0x1C8, 1⟩, 0x1⟩,
    ⟨⟨0x1CA, 0x1CA, 1⟩, 0x2⟩, ⟨⟨0x1CB, 0x1DB, 2⟩, 0x1⟩, ⟨⟨0x1DE, 0x1EE, 2⟩, 0x1⟩,
    ⟨⟨0x1F1, 0x1F1, 1⟩, 0x2⟩, ⟨⟨0x1F2, 0x1F4, 2⟩, 0x1⟩, ⟨⟨0x1F6, 0x1F6, 1⟩, -0x61⟩,
    ⟨⟨0x1F7, 0x1F7, 1⟩, -0x38⟩, ⟨⟨0x1F8, 0x21E, 2⟩, 0x1⟩, ⟨⟨0x220, 0x220, 1⟩, -0x82⟩,
    ⟨⟨0x222, 0x232, 2⟩, 0x1⟩, ⟨⟨0x23A, 0x23A, 1⟩, 0x2A2B⟩, ⟨⟨0x23B, 0x23B, 1⟩, 0x1⟩,
    ⟨⟨0x23D, 0x23D, 1⟩, -0xA3⟩, ⟨⟨0x23E, 0x23E, 1⟩, 0x2A28⟩, ⟨⟨0x241, 0x241, 1⟩, 0x1⟩,
    ⟨⟨0x243, 0x243, 1⟩, -0xC3⟩, ⟨⟨0x244, 0x244, 1⟩, 0x45⟩, ⟨⟨0x245, 0x245, 1⟩, 0x47⟩,
    ⟨⟨0x246, 0x24E, 2⟩, 0x1⟩, ⟨⟨0x370, 0x372, 2⟩, 0x1⟩, ⟨⟨0x376, 0x376, 1⟩, 0x1⟩,
    ⟨⟨0x37F, 0x37F, 1⟩, 0x74⟩, ⟨⟨0x386, 0x386, 1⟩, 0x26⟩, ⟨⟨0x388, 0x38A, 1⟩, 0x25⟩,
    ⟨⟨0x38C, 0x38C, 1⟩, 0x40⟩, ⟨⟨0x38E, 0x38F, 1⟩, 0x3F⟩, ⟨⟨0x391, 0x3A1, 1⟩, 0x20⟩,
    ⟨⟨0x3A3, 0x3AB, 1⟩, 0x20⟩, ⟨⟨0x3CF, 0x3CF, 1⟩, 0x8⟩, ⟨⟨0x3D8, 0x3EE, 2⟩, 0x1⟩,
    ⟨⟨0x3F4, 0x3F4, 1⟩, -0x3C⟩, ⟨⟨0x3F7, 0x3F7, 1⟩, 0x1⟩, ⟨⟨0x3F9, 0x3F9, 1⟩, -0x7⟩,
    ⟨⟨0x3FA, 0x3FA, 1⟩, 0x1⟩, ⟨⟨0x3FD, 0x3FF, 1⟩, -0x82⟩, ⟨⟨0x400, 0x40F, 1⟩, 0x50⟩,
    ⟨⟨0x410, 0x42F, 1⟩, 0x20⟩, ⟨⟨0x460, 0x480, 2⟩, 0x1⟩, ⟨⟨0x48A, 0x4BE, 2⟩, 0x1⟩,
    ⟨⟨0x4C0, 0x4C0, 1⟩, 0xF⟩, ⟨⟨0x4C1, 0x4CD, 2⟩, 0x1⟩, ⟨⟨0x4D0, 0x52E, 2⟩, 0x1⟩,
    ⟨⟨0x531, 0x556, 1⟩, 0x30⟩, ⟨⟨0x10A0, 0x10C5, 1⟩, 0x1C60⟩, ⟨⟨0x10C7, 0x10C7, 1⟩, 0x1C60⟩,
    ⟨⟨0x10CD, 0x10CD, 1⟩, 0x1C60⟩, ⟨⟨0x13A0, 0x13EF, 1⟩, 0x97D0⟩, ⟨⟨0x13F0, 0x13F5, 1⟩, 0x8⟩,
    ⟨⟨0x1C89, 0x1C89, 1⟩, 0x1⟩, ⟨⟨0x1C90, 0x1CBA, 1⟩, -0xBC0⟩, ⟨⟨0x1CBD, 0x1CBF, 1⟩, -0xBC0⟩,
    ⟨⟨0x1E00, 0x1E94, 2⟩, 0x1⟩, ⟨⟨0x1E9E, 0x1E9E, 1⟩, -0x1DBF⟩, ⟨⟨0x1EA0, 0x1EFE, 2⟩, 0x1⟩,
    ⟨⟨0x1F08, 0x1F0F, 1⟩, -0x8⟩, ⟨⟨0x1F18, 0x1F1D, 1⟩, -0x8⟩, ⟨⟨0x1F28, 0x1F2F, 1⟩, -0x8⟩,
    ⟨⟨0x1F38, 0x1F3F, 1⟩, -0x8⟩, ⟨⟨0x1F48, 0x1F4D, 1⟩, -0x8⟩, ⟨⟨0x1F59, 0x1F5F, 2⟩, -0x8⟩,
    ⟨⟨0x1F68, 0x1F6F, 1⟩, -0x8⟩, ⟨⟨0x1F88, 0x1F8F, 1⟩, -0x8⟩, ⟨⟨0x1F98, 0x1F9F, 1⟩, -0x8⟩,
    ⟨⟨0x1FA8, 0x1FAF, 1⟩, -0x8⟩, ⟨⟨0x1FB8, 0x1FB9, 1⟩, -0x8⟩, ⟨⟨0x1FBA, 0x1FBB, 1⟩, -0x4A⟩,
    ⟨⟨0x1FBC, 0x1FBC, 1⟩, -0x9⟩, ⟨⟨0x1FC8, 0x1FCB, 1⟩, -0x56⟩, ⟨⟨0x1FCC, 0x1FCC, 1⟩, -0x9⟩,
    ⟨⟨0x1FD8, 0x1FD9, 1⟩, -0x8⟩, ⟨⟨0x1FDA, 0x1FDB, 1⟩, -0x64⟩, ⟨⟨0x1FE8, 0x1FE9, 1⟩, -0x8⟩,
    ⟨⟨0x1FEA, 0x1FEB, 1⟩, -0x70⟩, ⟨⟨0x1FEC, 0x1FEC, 1⟩, -0x7⟩, ⟨⟨0x1FF8, 0x1FF9, 1⟩, -0x80⟩,
    ⟨⟨0x1FFA, 0x1FFB, 1⟩, -0x7E⟩, ⟨⟨0x1FFC, 0x1FFC, 1⟩, -0x9⟩, ⟨⟨0x2126, 0x2126, 1⟩, -0x1D5D⟩,
    ⟨⟨0x212A, 0x212A, 1⟩, -0x20BF⟩, ⟨⟨0x212B, 0x212B, 1⟩, -0x2046⟩, ⟨⟨0x2132, 0x2132, 1⟩, 0x1C⟩,
    ⟨⟨0x2160, 0x216F, 1⟩, 0x10⟩, ⟨⟨0x2183, 0x2183, 1⟩, 0x1⟩, ⟨⟨0x24B6, 0x24CF, 1⟩, 0x1A⟩,
    ⟨⟨0x2C00, 0x2C2F, 1⟩, 0x30⟩, ⟨⟨0x2C60, 0x2C60, 1⟩, 0x1⟩, ⟨⟨0x2C62, 0x2C62, 1⟩, -0x29F7⟩,
    ⟨⟨0x2C63, 0x2C63, 1⟩, -0xEE6⟩, ⟨⟨0x2C64, 0x2C64, 1⟩, -0x29E7⟩, ⟨⟨0x2C67, 0x2C6B, 2⟩, 0x1⟩,
    ⟨⟨0x2C6D, 0x2C6D, 1⟩, -0x2A1C⟩, ⟨⟨0x2C6E, 0x2C6E, 1⟩, -0x29FD⟩, ⟨⟨0x2C6F, 0x2C6F, 1⟩, -0x2A1F⟩,
    ⟨⟨0x2C70, 0x2C70, 1⟩, -0x2A1E⟩, ⟨⟨0x2C72, 0x2C72, 1⟩, 0x1⟩, ⟨⟨0x2C75, 0x2C75, 1⟩, 0x1⟩,
    ⟨⟨0x2C7E, 0x2C7F, 1⟩, -0x2A3F⟩, ⟨⟨0x2C80, 0x2CE2, 2⟩, 0x1⟩, ⟨⟨0x2CEB, 0x2CED, 2⟩, 0x1⟩,
    ⟨⟨0x2CF2, 0x2CF2, 1⟩, 0x1⟩, ⟨⟨0xA640, 0xA66C, 2⟩, 0x1⟩, ⟨⟨0xA680, 0xA69A, 2⟩, 0x1⟩,
    ⟨⟨0xA722, 0xA72E, 2⟩, 0x1⟩, ⟨⟨0xA732, 0xA76E, 2⟩, 0x1⟩, ⟨⟨0xA779, 0xA77B, 2⟩, 0x1⟩,
    ⟨⟨0xA77D, 0xA77D, 1⟩, -0x8A04⟩, ⟨⟨0xA77E, 0xA786, 2⟩, 0x1⟩, ⟨⟨0xA78B, 0xA78B, 1⟩, 0x1⟩,
    ⟨⟨0xA78D, 0xA78D, 1⟩, -0xA528⟩, ⟨⟨0xA790, 0xA792, 2⟩, 0x1⟩, ⟨⟨0xA796, 0xA7A8, 2⟩, 0x1⟩,
    ⟨⟨0xA7AA, 0xA7AA, 1⟩, -0xA544⟩, ⟨⟨0xA7AB, 0xA7AB, 1⟩, -0xA54F⟩, ⟨⟨0xA7AC, 0xA7AC, 1⟩, -0xA54B⟩,
    ⟨⟨0xA7AD, 0xA7AD, 1⟩, -0xA541⟩, ⟨⟨0xA7AE, 0xA7AE, 1⟩, -0xA544⟩, ⟨⟨0xA7B0, 0xA7B0, 1⟩, -0xA512⟩,
    ⟨⟨0xA7B1, 0xA7B1, 1⟩, -0xA52A⟩, ⟨⟨0xA7B2, 0xA7B2, 1⟩, -0xA515⟩, ⟨⟨0xA7B3, 0xA7B3, 1⟩, 0x3A0⟩,
    ⟨⟨0xA7B4, 0xA7C2, 2⟩, 0x1⟩, ⟨⟨0xA7C4, 0xA7C4, 1⟩, -0x30⟩, ⟨⟨0xA7C5, 0xA7C5, 1⟩, -0xA543⟩,
    ⟨⟨0xA7C6, 0xA7C6, 1⟩, -0x8A38⟩, ⟨⟨0xA7C7, 0xA7C9, 2⟩, 0x1⟩, ⟨⟨0xA7CB, 0xA7CB, 1⟩, -0xA567⟩,
    ⟨⟨0xA7CC, 0xA7DA, 2⟩, 0x1⟩, ⟨⟨0xA7DC, 0xA7DC, 1⟩, -0xA641⟩, ⟨⟨0xA7F5, 0xA7F5, 1⟩, 0x1⟩,
    ⟨⟨0xFF21, 0xFF3A, 1⟩, 0x20⟩, ⟨⟨0x10400, 0x10427, 1⟩, 0x28⟩, ⟨⟨0x104B0, 0x104D3, 1⟩, 0x28⟩,
    ⟨⟨0x10570, 0x1057A, 1⟩, 0x27⟩, ⟨⟨0x1057C, 0x1058A, 1⟩, 0x27⟩, ⟨⟨0x1058C, 0x10592, 1⟩, 0x27⟩,
    ⟨⟨0x10594, 0x10595, 1⟩, 0x27⟩, ⟨⟨0x10C80, 0x10CB2, 1⟩, 0x40⟩, ⟨⟨0x10D50, 0x10D65, 1⟩, 0x20⟩,
    ⟨⟨0x118A0, 0x118BF, 1⟩, 0x20⟩, ⟨⟨0x16E40, 0x16E5F, 1⟩, 0x20⟩, ⟨⟨0x16EA0, 0x16EB8, 1⟩, 0x1B⟩,
    ⟨⟨0x1E900, 0x1E921, 1⟩, 0x22⟩]

def lowerExpansions : List CaseExpansion := [
    ⟨0x130, ['\u0069', '\u0307']⟩]

def uppercaseRanges : List CodeRange := codeRanges [
    "C0-D6 D8-DE 100-136/2 139-147/2 14A-176/2 178-179 17B 17D 181-182 184 186-187 189-18B",
    "18E-191 193-194 196-198 19C-19D 19F-1A0 1A2 1A4 1A6-1A7 1A9 1AC 1AE-1AF 1B1-1B3 1B5",
    "1B7-1B8 1BC 1C4 1C7 1CA 1CD-1DB/2 1DE-1EE/2 1F1 1F4 1F6-1F8 1FA-232/2 23A-23B 23D-23E",
    "241 243-246 248-24E/2 370 372 376 37F 386 388-38A 38C 38E-38F 391-3A1 3A3-3AB 3CF",
    "3D2-3D4 3D8-3EE/2 3F4 3F7 3F9-3FA 3FD-42F 460-480/2 48A-4BE/2 4C0-4C1 4C3-4CD/2",
    "4D0-52E/2 531-556 10A0-10C5 10C7 10CD 13A0-13F5 1C89 1C90-1CBA 1CBD-1CBF 1E00-1E94/2",
    "1E9E-1EFE/2 1F08-1F0F 1F18-1F1D 1F28-1F2F 1F38-1F3F 1F48-1F4D 1F59-1F5F/2 1F68-1F6F",
    "1FB8-1FBB 1FC8-1FCB 1FD8-1FDB 1FE8-1FEC 1FF8-1FFB 2102 2107 210B-210D 2110-2112 2115",
    "2119-211D 2124-2128/2 212A-212D 2130-2133 213E-213F 2145 2160-216F 2183 24B6-24CF",
    "2C00-2C2F 2C60 2C62-2C64 2C67-2C6B/2 2C6D-2C70 2C72 2C75 2C7E-2C80 2C82-2CE2/2 2CEB 2CED",
    "2CF2 A640-A66C/2 A680-A69A/2 A722-A72E/2 A732-A76E/2 A779 A77B A77D-A77E A780-A786/2",
    "A78B A78D A790 A792 A796-A7A8/2 A7AA-A7AE A7B0-A7B4 A7B6-A7C2/2 A7C4-A7C7 A7C9 A7CB-A7CC",
    "A7CE-A7DC/2 A7F5 FF21-FF3A 10400-10427 104B0-104D3 10570-1057A 1057C-1058A 1058C-10592",
    "10594-10595 10C80-10CB2 10D50-10D65 118A0-118BF 16E40-16E5F 16EA0-16EB8 1D400-1D419",
    "1D434-1D44D 1D468-1D481 1D49C 1D49E-1D49F 1D4A2 1D4A5-1D4A6 1D4A9-1D4AC 1D4AE-1D4B5",
    "1D4D0-1D4E9 1D504-1D505 1D507-1D50A 1D50D-1D514 1D516-1D51C 1D538-1D539 1D53B-1D53E",
    "1D540-1D544 1D546 1D54A-1D550 1D56C-1D585 1D5A0-1D5B9 1D5D4-1D5ED 1D608-1D621",
    "1D63C-1D655 1D670-1D689 1D6A8-1D6C0 1D6E2-1D6FA 1D71C-1D734 1D756-1D76E 1D790-1D7A8",
    "1D7CA 1E900-1E921 1F130-1F149 1F150-1F169 1F170-1F189"]

def casedRanges : List CodeRange := codeRanges [
    "AA B5 BA C0-D6 D8-F6 F8-1BA 1BC-1BF 1C4-293 295-2B8 2C0-2C1 2E0-2E4 345 370-373 376-377",
    "37A-37D 37F 386 388-38A 38C 38E-3A1 3A3-3F5 3F7-481 48A-52F 531-556 560-588 10A0-10C5",
    "10C7 10CD 10D0-10FA 10FC-10FF 13A0-13F5 13F8-13FD 1C80-1C8A 1C90-1CBA 1CBD-1CBF",
    "1D00-1DBF 1E00-1F15 1F18-1F1D 1F20-1F45 1F48-1F4D 1F50-1F57 1F59-1F5D/2 1F5F-1F7D",
    "1F80-1FB4 1FB6-1FBC 1FBE 1FC2-1FC4 1FC6-1FCC 1FD0-1FD3 1FD6-1FDB 1FE0-1FEC 1FF2-1FF4",
    "1FF6-1FFC 2071 207F 2090-209C 2102 2107 210A-2113 2115 2119-211D 2124-2128/2 212A-212D",
    "212F-2134 2139 213C-213F 2145-2149 214E 2160-217F 2183-2184 24B6-24E9 2C00-2CE4",
    "2CEB-2CEE 2CF2-2CF3 2D00-2D25 2D27 2D2D A640-A66D A680-A69D A722-A787 A78B-A78E",
    "A790-A7DC A7F2-A7F6 A7F8-A7FA AB30-AB5A AB5C-AB69 AB70-ABBF FB00-FB06 FB13-FB17",
    "FF21-FF3A FF41-FF5A 10400-1044F 104B0-104D3 104D8-104FB 10570-1057A 1057C-1058A",
    "1058C-10592 10594-10595 10597-105A1 105A3-105B1 105B3-105B9 105BB-105BC 10780",
    "10783-10785 10787-107B0 107B2-107BA 10C80-10CB2 10CC0-10CF2 10D50-10D65 10D70-10D85",
    "118A0-118DF 16E40-16E7F 16EA0-16EB8 16EBB-16ED3 1D400-1D454 1D456-1D49C 1D49E-1D49F",
    "1D4A2 1D4A5-1D4A6 1D4A9-1D4AC 1D4AE-1D4B9 1D4BB 1D4BD-1D4C3 1D4C5-1D505 1D507-1D50A",
    "1D50D-1D514 1D516-1D51C 1D51E-1D539 1D53B-1D53E 1D540-1D544 1D546 1D54A-1D550",
    "1D552-1D6A5 1D6A8-1D6C0 1D6C2-1D6DA 1D6DC-1D6FA 1D6FC-1D714 1D716-1D734 1D736-1D74E",
    "1D750-1D76E 1D770-1D788 1D78A-1D7A8 1D7AA-1D7C2 1D7C4-1D7CB 1DF00-1DF09 1DF0B-1DF1E",
    "1DF25-1DF2A 1E030-1E06D 1E900-1E943 1F130-1F149 1F150-1F169 1F170-1F189"]

def caseIgnorableRanges : List CodeRange := codeRanges [
    "A8 AD AF B4 B7-B8 2B0-36F 374-375 37A 384-385 387 483-489 559 55F 591-5BD 5BF 5C1-5C2",
    "5C4-5C5 5C7 5F4 600-605 610-61A 61C 640 64B-65F 670 6D6-6DD 6DF-6E8 6EA-6ED 70F 711",
    "730-74A 7A6-7B0 7EB-7F5 7FA 7FD 816-82D 859-85B 888 890-891 898-89F 8C9-902 93A 93C",
    "941-948 94D 951-957 962-963 971 981 9BC 9C1-9C4 9CD 9E2-9E3 9FE A01-A02 A3C A41-A42",
    "A47-A48 A4B-A4D A51 A70-A71 A75 A81-A82 ABC AC1-AC5 AC7-AC8 ACD AE2-AE3 AFA-AFF B01 B3C",
    "B3F B41-B44 B4D B55-B56 B62-B63 B82 BC0 BCD C00 C04 C3C C3E-C40 C46-C48 C4A-C4D C55-C56",
    "C62-C63 C81 CBC CBF CC6 CCC-CCD CE2-CE3 D00-D01 D3B-D3C D41-D44 D4D D62-D63 D81 DCA",
    "DD2-DD4 DD6 E31 E34-E3A E46-E4E EB1 EB4-EBC EC6 EC8-ECE F18-F19 F35-F39/2 F71-F7E",
    "F80-F84 F86-F87 F8D-F97 F99-FBC FC6 102D-1030 1032-1037 1039-103A 103D-103E 1058-1059",
    "105E-1060 1071-1074 1082 1085-1086 108D 109D 10FC 135D-135F 1712-1714 1732-1733",
    "1752-1753 1772-1773 17B4-17B5 17B7-17BD 17C6 17C9-17D3 17D7 17DD 180B-180F 1843",
    "1885-1886 18A9 1920-1922 1927-1928 1932 1939-193B 1A17-1A18 1A1B 1A56 1A58-1A5E 1A60",
    "1A62 1A65-1A6C 1A73-1A7C 1A7F 1AA7 1AB0-1ACE 1B00-1B03 1B34 1B36-1B3A 1B3C 1B42",
    "1B6B-1B73 1B80-1B81 1BA2-1BA5 1BA8-1BA9 1BAB-1BAD 1BE6 1BE8-1BE9 1BED 1BEF-1BF1",
    "1C2C-1C33 1C36-1C37 1C78-1C7D 1CD0-1CD2 1CD4-1CE0 1CE2-1CE8 1CED 1CF4 1CF8-1CF9",
    "1D2C-1D6A 1D78 1D9B-1DFF 1FBD 1FBF-1FC1 1FCD-1FCF 1FDD-1FDF 1FED-1FEF 1FFD-1FFE",
    "200B-200F 2018-2019 2024 2027 202A-202E 2060-2064 2066-206F 2071 207F 2090-209C",
    "20D0-20F0 2C7C-2C7D 2CEF-2CF1 2D6F 2D7F 2DE0-2DFF 2E2F 3005 302A-302D 3031-3035 303B",
    "3099-309E 30FC-30FE A015 A4F8-A4FD A60C A66F-A672 A674-A67D A67F A69C-A69F A6F0-A6F1",
    "A700-A721 A770 A788-A78A A7F2-A7F4 A7F8-A7F9 A802 A806 A80B A825-A826 A82C A8C4-A8C5",
    "A8E0-A8F1 A8FF A926-A92D A947-A951 A980-A982 A9B3 A9B6-A9B9 A9BC-A9BD A9CF A9E5-A9E6",
    "AA29-AA2E AA31-AA32 AA35-AA36 AA43 AA4C AA70 AA7C AAB0 AAB2-AAB4 AAB7-AAB8 AABE-AABF",
    "AAC1 AADD AAEC-AAED AAF3-AAF4 AAF6 AB5B-AB5F AB69-AB6B ABE5 ABE8 ABED FB1E FBB2-FBC2",
    "FE00-FE0F FE13 FE20-FE2F FE52 FE55 FEFF FF07 FF0E FF1A FF3E FF40 FF70 FF9E-FF9F FFE3",
    "FFF9-FFFB 101FD 102E0 10376-1037A 10780-10785 10787-107B0 107B2-107BA 10A01-10A03",
    "10A05-10A06 10A0C-10A0F 10A38-10A3A 10A3F 10AE5-10AE6 10D24-10D27 10EAB-10EAC",
    "10EFD-10EFF 10F46-10F50 10F82-10F85 11001 11038-11046 11070 11073-11074 1107F-11081",
    "110B3-110B6 110B9-110BA 110BD 110C2 110CD 11100-11102 11127-1112B 1112D-11134 11173",
    "11180-11181 111B6-111BE 111C9-111CC 111CF 1122F-11231 11234 11236-11237 1123E 11241",
    "112DF 112E3-112EA 11300-11301 1133B-1133C 11340 11366-1136C 11370-11374 11438-1143F",
    "11442-11444 11446 1145E 114B3-114B8 114BA 114BF-114C0 114C2-114C3 115B2-115B5",
    "115BC-115BD 115BF-115C0 115DC-115DD 11633-1163A 1163D 1163F-11640 116AB 116AD",
    "116B0-116B5 116B7 1171D-1171F 11722-11725 11727-1172B 1182F-11837 11839-1183A",
    "1193B-1193C 1193E 11943 119D4-119D7 119DA-119DB 119E0 11A01-11A0A 11A33-11A38",
    "11A3B-11A3E 11A47 11A51-11A56 11A59-11A5B 11A8A-11A96 11A98-11A99 11C30-11C36",
    "11C38-11C3D 11C3F 11C92-11CA7 11CAA-11CB0 11CB2-11CB3 11CB5-11CB6 11D31-11D36 11D3A",
    "11D3C-11D3D 11D3F-11D45 11D47 11D90-11D91 11D95 11D97 11EF3-11EF4 11F00-11F01",
    "11F36-11F3A 11F40 11F42 13430-13440 13447-13455 16AF0-16AF4 16B30-16B36 16B40-16B43",
    "16F4F 16F8F-16F9F 16FE0-16FE1 16FE3-16FE4 1AFF0-1AFF3 1AFF5-1AFFB 1AFFD-1AFFE",
    "1BC9D-1BC9E 1BCA0-1BCA3 1CF00-1CF2D 1CF30-1CF46 1D167-1D169 1D173-1D182 1D185-1D18B",
    "1D1AA-1D1AD 1D242-1D244 1DA00-1DA36 1DA3B-1DA6C 1DA75 1DA84 1DA9B-1DA9F 1DAA1-1DAAF",
    "1E000-1E006 1E008-1E018 1E01B-1E021 1E023-1E024 1E026-1E02A 1E030-1E06D 1E08F",
    "1E130-1E13D 1E2AE 1E2EC-1E2EF 1E4EB-1E4EF 1E8D0-1E8D6 1E944-1E94B 1F3FB-1F3FF E0001",
    "E0020-E007F E0100-E01EF"]

def isUppercase (c : Char) : Bool :=
  if c.toNat < 128 then c.isUpper else inRanges uppercaseRanges c

def isCased (c : Char) : Bool :=
  if c.toNat < 128 then c.isAlpha else inRanges casedRanges c

def isCaseIgnorable (c : Char) : Bool :=
  if c.toNat < 128 then "'.:^`".toList.contains c else inRanges caseIgnorableRanges c

/-- A character in the case that some tables tell of. -/
def mapped (expansions : List CaseExpansion) (shifts : List CaseShift) (c : Char) :
    List Char :=
  match expansions.find? (·.code == c.toNat) with
  | some e => e.result
  | none =>
    match shifts.find? (·.range.contains c.toNat) with
    | some s => [s.apply c]
    | none => [c]

def upperChars (c : Char) : List Char :=
  if c.toNat < 128 then [c.toUpper] else mapped upperExpansions upperShifts c

/-- The lower case of one character on its own. -/
def lowerChars (c : Char) : List Char :=
  if c.toNat < 128 then [c.toLower] else mapped lowerExpansions lowerShifts c

def upperText (text : List Char) : List Char := text.flatMap upperChars

/-- Whether the first character that case does not ignore is cased. -/
def meetsCased (text : List Char) : Bool :=
  (text.dropWhile isCaseIgnorable).head?.any isCased

/-- The lower case of a text after the reversed text `before`; a capital sigma that ends a word
becomes the final form. -/
def lowerTextAfter : List Char → List Char → List Char
  | _, [] => []
  | before, c :: rest =>
    (if c = 'Σ' then
      if meetsCased before && !meetsCased rest then ['ς'] else ['σ']
     else lowerChars c) ++ lowerTextAfter (c :: before) rest

def lowerText (text : List Char) : List Char := lowerTextAfter [] text

end Observable.Text
