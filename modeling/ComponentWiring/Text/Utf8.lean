/-!
Reading UTF-8. An ill-formed stretch is as long as it can still be the start of a character; each
one is reported as a missing character, so that a strict reader refuses and a lenient one puts a
replacement character in its place.
-/

namespace ComponentWiring.Text

/-- The bytes that follow a lead byte: how many, the range of the first of them, and the bits that
the lead byte itself gives. -/
structure LeadByte where
  tails : Nat
  low : Nat := 0x80
  high : Nat := 0xBF
  bits : Nat

/-- What a byte leads, if it leads anything. Overlong forms, surrogates and numbers beyond the last
character are kept out by the range of the second byte. -/
def leadByte? (b : Nat) : Option LeadByte :=
  if b < 0xC2 then none
  else if b < 0xE0 then some { tails := 1, bits := b - 0xC0 }
  else if b = 0xE0 then some { tails := 2, low := 0xA0, bits := 0 }
  else if b = 0xED then some { tails := 2, high := 0x9F, bits := 0xD }
  else if b < 0xF0 then some { tails := 2, bits := b - 0xE0 }
  else if b = 0xF0 then some { tails := 3, low := 0x90, bits := 0 }
  else if b < 0xF4 then some { tails := 3, bits := b - 0xF0 }
  else if b = 0xF4 then some { tails := 3, high := 0x8F, bits := 4 }
  else none

/-- The number that a given number of tail bytes completes, and the bytes behind it. Reading stops
in front of the first byte that cannot follow. -/
def readTails : (tails low high bits : Nat) → List UInt8 → Option Nat × List UInt8
  | 0, _, _, bits, bs => (some bits, bs)
  | _ + 1, _, _, _, [] => (none, [])
  | n + 1, low, high, bits, b :: rest =>
    if low ≤ b.toNat ∧ b.toNat ≤ high then
      readTails n 0x80 0xBF (64 * bits + (b.toNat - 0x80)) rest
    else (none, b :: rest)

/-- The characters of the bytes, at most `fuel` of them, with nothing for an ill-formed stretch. -/
def decodeUnitsFrom : (fuel : Nat) → List UInt8 → List (Option Char)
  | 0, _ => []
  | _ + 1, [] => []
  | fuel + 1, b :: rest =>
    if b.toNat < 0x80 then some (Char.ofNat b.toNat) :: decodeUnitsFrom fuel rest
    else
      match leadByte? b.toNat with
      | none => none :: decodeUnitsFrom fuel rest
      | some lead =>
        let (code, left) := readTails lead.tails lead.low lead.high lead.bits rest
        code.map Char.ofNat :: decodeUnitsFrom fuel left

/-- The characters of the bytes, with nothing for an ill-formed stretch. -/
def decodeUnits (bytes : List UInt8) : List (Option Char) :=
  decodeUnitsFrom bytes.length bytes

/-- The text of well-formed bytes. -/
def decodeUtf8? (bytes : List UInt8) : Option String :=
  ((decodeUnits bytes).mapM id).map String.ofList

/-- The text of any bytes, with a replacement character for every ill-formed stretch. -/
def decodeLossy (bytes : List UInt8) : String :=
  String.ofList ((decodeUnits bytes).map (·.getD '\uFFFD'))

end ComponentWiring.Text
