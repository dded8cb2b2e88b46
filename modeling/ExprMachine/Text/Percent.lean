import ExprMachine.Text.Bytes

/-! Percent encoding: a byte that may not stand for itself is written as a percent sign and its two
hexadecimal digits. -/
namespace ExprMachine.Text

def percentDecoded? : Bytes → Option Bytes
  | [] => some []
  | b :: rest =>
    if b = byte '%' then
      match rest with
      | high :: low :: rest => do
        let code := (← hexValue? high) * 16 + (← hexValue? low)
        some (code.toUInt8 :: (← percentDecoded? rest))
      | _ => none
    else (percentDecoded? rest).map (b :: ·)

def percentEncoded (isPlain : UInt8 → Bool) (s : Bytes) : Bytes :=
  s.flatMap fun b => if isPlain b then [b] else byte '%' :: hexByteUpper b

end ExprMachine.Text
