import Flowsheet.Json.Basic

set_option autoImplicit false

namespace Flowsheet.Json

def pieceChars (escapeMarkup : Bool) : Text.Piece → List Char
  | .char c => stringChar escapeMarkup c
  | .stray _ => '\\' :: 'u' :: Text.hex 4 0xFFFD

def quoteBytes (escapeMarkup : Bool) (bs : List UInt8) : String :=
  String.ofList ('"' :: (Text.pieces bs).flatMap (pieceChars escapeMarkup) ++ ['"'])

def objectText (members : List (String × String)) : String :=
  "\x7b" ++ joined members ++ "\x7d"
where
  joined : List (String × String) → String
    | [] => ""
    | [(k, t)] => quote true k ++ ":" ++ t
    | (k, t) :: rest => quote true k ++ ":" ++ t ++ "," ++ joined rest

end Flowsheet.Json
