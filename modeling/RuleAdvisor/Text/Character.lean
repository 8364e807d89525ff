/-!
Characters in typed text: which of them are white space, the capitals that tell names in ASCII
letters apart, and the units of sixteen bits in which lengths are counted.
-/

namespace RuleAdvisor.Text

/-- The code points of white space and line ends. The zero-width space `200B` and the control
character `0085` are not among them. -/
def blankCodes : List Nat :=
  [0x9, 0xA, 0xB, 0xC, 0xD, 0x20, 0xA0, 0x1680, 0x2000, 0x2001, 0x2002, 0x2003, 0x2004, 0x2005,
    0x2006, 0x2007, 0x2008, 0x2009, 0x200A, 0x2028, 0x2029, 0x202F, 0x205F, 0x3000, 0xFEFF]

def isBlank (c : Char) : Bool := blankCodes.contains c.toNat

def trimChars (text : List Char) : List Char :=
  ((text.dropWhile isBlank).reverse.dropWhile isBlank).reverse

def trim (text : String) : String := String.ofList (trimChars text.toList)

def isAllBlank (text : String) : Bool := text.toList.all isBlank

/-- The capital of a letter whose capital is an ASCII letter; other characters stay. The dotless
`i` and the long `s` are the two such letters outside ASCII. -/
def capital (c : Char) : Char :=
  if c = 'ı' then 'I' else if c = 'ſ' then 'S' else c.toUpper

def capitals (text : String) : String := text.map capital

def smalls (text : String) : String := text.map Char.toLower

/-- A character beyond the first 65536 takes two units, of which the first holds the upper ten bits
and the second the lower ten. -/
def unitsOf (c : Char) : List Nat :=
  if c.toNat < 0x10000 then [c.toNat]
  else [0xD800 + (c.toNat - 0x10000) / 0x400, 0xDC00 + (c.toNat - 0x10000) % 0x400]

def units (text : List Char) : List Nat := text.flatMap unitsOf

end RuleAdvisor.Text
