namespace Dialogue.Text

def isBlank (c : Char) : Bool :=
  let n := c.toNat
  (9 ≤ n && n ≤ 13) || n = 32 || n = 0x85 || n = 0xA0 || n = 0x1680 ||
    (0x2000 ≤ n && n ≤ 0x200A) || n = 0x2028 || n = 0x2029 || n = 0x202F || n = 0x205F ||
    n = 0x3000

def trim (text : String) : String :=
  String.ofList ((text.toList.dropWhile isBlank).reverse.dropWhile isBlank).reverse

def isAllBlank (text : String) : Bool := text.toList.all isBlank

def lowerAscii (text : String) : String := String.ofList (text.toList.map Char.toLower)

def upperAscii (text : String) : String := String.ofList (text.toList.map Char.toUpper)

end Dialogue.Text
