/-!
# Protocol text

Everything the protocol spells out in letters is ASCII, so a piece of text is the list of its character codes.
-/

namespace RemoteDebug

/-- The bytes of a piece of protocol text. -/
def ascii (text : String) : List UInt8 := text.toList.map Char.toUInt8

end RemoteDebug
