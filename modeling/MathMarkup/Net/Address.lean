import MathMarkup.Text.Basic

/-!
# Network addresses

An address is a host and a service behind the last colon. A host that holds colons itself stands in
square brackets.
-/

namespace MathMarkup.Net

/-- An address in its two parts. -/
structure Address where
  host : Text
  service : Text
deriving DecidableEq, Repr

/-- Why a text is no address. -/
inductive AddressFault where
  | missingService
  | tooManyColons
  | missingBracket
  | unexpectedOpening
  | unexpectedClosing
deriving DecidableEq, Repr

/-- The wording of a fault. -/
def AddressFault.message : AddressFault → Text
  | missingService => "missing port in address"
  | tooManyColons => "too many colons in address"
  | missingBracket => "missing ']' in address"
  | unexpectedOpening => "unexpected '[' in address"
  | unexpectedClosing => "unexpected ']' in address"

/-- Checks that no bracket stands where none may: no `[` from `j` on and no `]` from `k` on. -/
def checkBrackets (t : Text) (j k : Nat) (a : Address) : Except AddressFault Address :=
  if (t.drop j).any (· == Text.byte '[') then .error .unexpectedOpening
  else if (t.drop k).any (· == Text.byte ']') then .error .unexpectedClosing
  else .ok a

/-- The two parts of an address. -/
def splitAddress (t : Text) : Except AddressFault Address :=
  match t.findLastByte? (Text.byte ':') with
  | none => .error .missingService
  | some i =>
    let service := t.drop (i + 1)
    if t.head? == some (Text.byte '[') then
      match t.findByte? (Text.byte ']') with
      | none => .error .missingBracket
      | some stop =>
        if stop + 1 = t.length then .error .missingService
        else if stop + 1 = i then
          checkBrackets t 1 (stop + 1) ⟨t.slice 1 stop, service⟩
        else if t[stop + 1]? == some (Text.byte ':') then .error .tooManyColons
        else .error .missingService
    else
      let host := t.take i
      if host.any (· == Text.byte ':') then .error .tooManyColons
      else checkBrackets t 0 0 ⟨host, service⟩

end MathMarkup.Net
