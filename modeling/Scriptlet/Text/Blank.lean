import Scriptlet.Text.Ranges

/-! Blank characters: the Unicode property White_Space and the category Cc. They separate
tokens and mean nothing else. Trimming takes whitespace alone, not the other controls. -/

namespace Scriptlet.Text

def whitespace : Ranges := [
    (0x9, 0xD), (0x20, 0x20), (0x85, 0x85), (0xA0, 0xA0), (0x1680, 0x1680), (0x2000, 0x200A),
    (0x2028, 0x2029), (0x202F, 0x202F), (0x205F, 0x205F), (0x3000, 0x3000)]

def control : Ranges := [(0x0, 0x1F), (0x7F, 0x9F)]

def isWhitespace (c : Char) : Bool := whitespace.contains c.toNat

def isControl (c : Char) : Bool := control.contains c.toNat

def isBlank (c : Char) : Bool := isWhitespace c || isControl c

def trimLeft (cs : List Char) : List Char := cs.dropWhile isWhitespace

def trimRight (cs : List Char) : List Char := (trimLeft cs.reverse).reverse

def trim (cs : List Char) : List Char := trimRight (trimLeft cs)

end Scriptlet.Text
