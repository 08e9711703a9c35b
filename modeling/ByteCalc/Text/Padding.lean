/-! Text set in columns of a given width. -/

namespace ByteCalc

/-- The text with fill characters before it, up to a width. -/
def padLeft (width : Nat) (fill : Char) (text : String) : String :=
  String.ofList (text.toList.leftpad width fill)

/-- The text with spaces after it, up to a width. -/
def padRight (width : Nat) (text : String) : String :=
  String.ofList (text.toList.rightpad width ' ')

end ByteCalc
