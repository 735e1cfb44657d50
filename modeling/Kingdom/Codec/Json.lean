import Kingdom.Codec.Decimal

/-!
# JSON values, printing and parsing

The JSON library the program is built on, as far as the program uses it: the
value type with its number kinds, the conversions `get<T>()`, `dump` and
`parse`.

* `Json` — values whose strings are lists over an alphabet.  Object fields are
  kept sorted by key, as the library's ordered map keeps them.
* `FloatFormat` — what the model needs of floating point: which text a literal
  prints back as, and the casts to integers.
* `dump`, `dumpWith` — compact and indented printing; `none` where the library
  throws because a string is not valid UTF-8.
* `parse` — the strict parser; `none` where the library returns a discarded
  value.
-/

namespace Codec

open Alphabet

/-- Object keys are plain byte strings. -/
abbrev Key := List UInt8

/-- A JSON value.  Non-negative numerals are read as `unsigned`, negative ones
(and `-0`) as `integer`, and everything else as `float`, a double named by the
text it prints as. -/
inductive Json (α : Type) where
  | null
  | bool (b : Bool)
  | unsigned (n : UInt64)
  | integer (i : Int64)
  | float (text : List UInt8)
  | str (s : List α)
  | arr (xs : List (Json α))
  | obj (fs : List (Key × Json α))
  deriving Inhabited

/-! ## Numerals -/

/-- The exponent part of a number: `e` or `E`, an optional sign, digits. -/
def isExponent : List UInt8 → Bool
  | [] => false
  | e :: r =>
      let ds := if r.head? = some 0x2B ∨ r.head? = some 0x2D then r.tail else r
      (e == 0x65 || e == 0x45) && !ds.isEmpty && ds.all isDigit

/-- What may follow the integer digits of a floating-point literal. -/
def isFraction : List UInt8 → Bool
  | [] => false
  | c :: r =>
      if c = 0x2E then
        !(r.takeWhile isDigit).isEmpty &&
          ((r.dropWhile isDigit).isEmpty || isExponent (r.dropWhile isDigit))
      else isExponent (c :: r)

/-- The three parts of a JSON number token: is it negative, its integer digits,
and whether a fraction or an exponent follows. -/
def scanNumber (t : List UInt8) : Option (Bool × List UInt8 × Bool) :=
  let neg := t.head? == some 0x2D
  let u := if neg then t.tail else t
  let ds := u.takeWhile isDigit
  let r := u.dropWhile isDigit
  if ds = [] ∨ (ds.head? = some 0x30 ∧ ds.length ≠ 1) then none
  else if r = [] then some (neg, ds, false)
  else if isFraction r then some (neg, ds, true)
  else none

/-- The characters a number token is made of. -/
def isNumChar (b : UInt8) : Bool :=
  isDigit b || b == 0x2B || b == 0x2D || b == 0x2E || b == 0x65 || b == 0x45

/-- What the model needs of `double`: a literal is named by the text the library
prints for its value, and the casts of C++ are functions of that text. -/
class FloatFormat where
  /-- The printed form of the double a literal denotes; `none` when it is not finite. -/
  canon : List UInt8 → Option (List UInt8)
  /-- `static_cast<uint64_t>` -/
  toUInt64 : List UInt8 → UInt64
  /-- `static_cast<int>` -/
  toInt32 : List UInt8 → Int32
  /-- A printed double is a floating-point literal … -/
  canon_float : ∀ {t u}, canon t = some u →
    (∃ neg ds, scanNumber u = some (neg, ds, true)) ∧ u.all isNumChar = true
  /-- … and denotes the double it was printed from. -/
  canon_canon : ∀ {t u}, canon t = some u → canon u = some u

/-- A format for literals that print as they are written and have no exponent:
such a literal names itself and is cast by its integer digits. -/
@[reducible] def plainFloats : FloatFormat where
  canon t :=
    match scanNumber t with
    | some (_, _, true) => if t.all isNumChar then some t else none
    | _ => none
  toUInt64 t := UInt64.ofNat (digitsValue (t.takeWhile isDigit))
  toInt32 t := Int32.ofNat (digitsValue (t.takeWhile isDigit))
  canon_float := by
    intro t u h
    split at h
    · rename_i neg ds hs
      split_ifs at h with hall
      cases h
      exact ⟨⟨neg, ds, hs⟩, hall⟩
    · cases h
  canon_canon := by
    intro t u h
    split at h
    · rename_i neg ds hs
      split_ifs at h with hall
      cases h
      rw [hs]
      simp [hall]
    · cases h

namespace Json

variable {α : Type}

/-! ## Objects -/

/-- Set a field of a sorted object. -/
def insertField (k : Key) (v : Json α) : List (Key × Json α) → List (Key × Json α)
  | [] => [(k, v)]
  | (k', v') :: r =>
      if k = k' then (k, v) :: r
      else if k < k' then (k, v) :: (k', v') :: r
      else (k', v') :: insertField k v r

/-- An object from fields in any order; a later field replaces an earlier one. -/
def ofFields (fs : List (Key × Json α)) : List (Key × Json α) :=
  fs.foldl (fun acc p => insertField p.1 p.2 acc) []

/-- `{{"k", v}, …}`: an object from the fields of an initializer list.  It is not
unfolded by the elaborator, which would sort its keys. -/
@[irreducible] def mkObj (fs : List (String × Json α)) : Json α :=
  .obj (ofFields (fs.map fun p => (bytes p.1, p.2)))

/-- The value a field list gives a key. -/
def lookup (k : Key) : List (Key × Json α) → Option (Json α)
  | [] => none
  | (k', v) :: r => if k' = k then some v else lookup k r

/-- The field `k` of an object; `none` for a missing field and for anything that
is not an object. -/
def get? (j : Json α) (k : Key) : Option (Json α) :=
  match j with
  | .obj fs => lookup k fs
  | _ => none

/-- `contains(k)` -/
def contains (j : Json α) (k : Key) : Bool := (j.get? k).isSome

/-- `j[k] = v` on an object. -/
def set (j : Json α) (k : Key) (v : Json α) : Json α :=
  match j with
  | .obj fs => .obj (insertField k v fs)
  | j => j

/-- `erase(k)` on an object. -/
def erase (j : Json α) (k : Key) : Json α :=
  match j with
  | .obj fs => .obj (fs.filter fun p => p.1 ≠ k)
  | j => j

def isNull : Json α → Bool
  | .null => true
  | _ => false

def isObject : Json α → Bool
  | .obj _ => true
  | _ => false

def isNumberUnsigned : Json α → Bool
  | .unsigned _ => true
  | _ => false

/-! ## Conversions -/

/-- `get<std::string>()` -/
def str? : Json α → Option (List α)
  | .str s => some s
  | _ => none

/-- `get<uint64_t>()`: any number, cast to `uint64_t`. -/
def uint64? [FloatFormat] : Json α → Option UInt64
  | .unsigned n => some n
  | .integer i => some i.toUInt64
  | .float t => some (FloatFormat.toUInt64 t)
  | _ => none

/-- `get<unsigned long long>()`: as that, and it also converts booleans. -/
def unsignedLongLong? [FloatFormat] : Json α → Option UInt64
  | .bool b => some (if b then 1 else 0)
  | j => j.uint64?

/-- `get<int>()`, which also converts booleans. -/
def int? [FloatFormat] : Json α → Option Int32
  | .bool b => some (if b then 1 else 0)
  | .unsigned n => some n.toUInt32.toInt32
  | .integer i => some i.toInt32
  | .float t => some (FloatFormat.toInt32 t)
  | _ => none

/-- What a loop over the value runs through: the elements of an array, the values of
an object, and a value of another type itself. -/
def elements : Json α → List (Json α)
  | .arr xs => xs
  | .obj fs => fs.map (·.2)
  | .null => []
  | j => [j]

/-- The elements of an array. -/
def arr? : Json α → Option (List (Json α))
  | .arr xs => some xs
  | _ => none

/-! ## Printing -/

/-- A lower-case hexadecimal digit. -/
def hexDigit (b : UInt8) : UInt8 := if b < 10 then 0x30 + b else 0x57 + b

/-- The escape of one byte inside a string. -/
def escapeByte (b : UInt8) : List UInt8 :=
  if b = 0x22 then [0x5C, 0x22]
  else if b = 0x5C then [0x5C, 0x5C]
  else if b = 0x08 then [0x5C, 0x62]
  else if b = 0x0C then [0x5C, 0x66]
  else if b = 0x0A then [0x5C, 0x6E]
  else if b = 0x0D then [0x5C, 0x72]
  else if b = 0x09 then [0x5C, 0x74]
  else if b < 0x20 then [0x5C, 0x75, 0x30, 0x30, hexDigit (b / 16), hexDigit (b % 16)]
  else [b]

variable [Alphabet α]

/-- The escape of one symbol: opaque symbols are copied. -/
def escapeSym (a : α) : List α :=
  match toByte a with
  | some b => ofBytes (escapeByte b)
  | none => [a]

/-- The text of a string between its quotes. -/
def escape (s : List α) : List α := s.flatMap escapeSym

/-- A quoted string; `none` where the library throws, on a string that is not
valid UTF-8. -/
def dumpString (s : List α) : Option (List α) :=
  if validUtf8 s then some (ofByte 0x22 :: (escape s ++ [ofByte 0x22])) else none

/-- The text of an integer. -/
def dumpInt (i : Int) : List UInt8 :=
  if i < 0 then 0x2D :: decimal i.natAbs else decimal i.natAbs

/-- A line break and `d` blanks when printing indented, nothing otherwise. -/
def newline (w : Option Nat) (d : Nat) : List UInt8 :=
  if w.isSome then 0x0A :: List.replicate d 0x20 else []

/-- The separator after an object key. -/
def colon (w : Option Nat) : List UInt8 := if w.isSome then [0x3A, 0x20] else [0x3A]

mutual

/-- Print a value, with `some k` indented by `k` a level; `d` is the current
indentation. -/
def dumpWith (w : Option Nat) (d : Nat) : Json α → Option (List α)
  | .null => some (lit "null")
  | .bool true => some (lit "true")
  | .bool false => some (lit "false")
  | .unsigned n => some (ofBytes (decimal n.toNat))
  | .integer i => some (ofBytes (dumpInt i.toInt))
  | .float t => some (ofBytes t)
  | .str s => dumpString s
  | .arr [] => some (lit "[]")
  | .arr (x :: xs) => do
      let a ← dumpWith w (d + w.getD 0) x
      let b ← dumpElems w d xs
      some (ofBytes (0x5B :: newline w (d + w.getD 0)) ++ a ++ b)
  | .obj [] => some (lit "{}")
  | .obj ((k, v) :: fs) => do
      let s ← dumpString k
      let a ← dumpWith w (d + w.getD 0) v
      let b ← dumpFields w d fs
      some (ofBytes (0x7B :: newline w (d + w.getD 0) ++ s ++ colon w) ++ a ++ b)

/-- The elements after the first, and the closing bracket. -/
def dumpElems (w : Option Nat) (d : Nat) : List (Json α) → Option (List α)
  | [] => some (ofBytes (newline w d ++ [0x5D]))
  | x :: xs => do
      let a ← dumpWith w (d + w.getD 0) x
      let b ← dumpElems w d xs
      some (ofBytes (0x2C :: newline w (d + w.getD 0)) ++ a ++ b)

/-- The fields after the first, and the closing brace. -/
def dumpFields (w : Option Nat) (d : Nat) : List (Key × Json α) → Option (List α)
  | [] => some (ofBytes (newline w d ++ [0x7D]))
  | (k, v) :: fs => do
      let s ← dumpString k
      let a ← dumpWith w (d + w.getD 0) v
      let b ← dumpFields w d fs
      some (ofBytes (0x2C :: newline w (d + w.getD 0) ++ s ++ colon w) ++ a ++ b)

end

/-- `dump()` -/
def dump (j : Json α) : Option (List α) := dumpWith none 0 j

/-! ## Parsing -/

/-- The blanks between tokens. -/
def isWs (a : α) : Bool :=
  match toByte a with
  | some b => b == 0x20 || b == 0x09 || b == 0x0A || b == 0x0D
  | none => false

def skipWs (s : List α) : List α := s.dropWhile isWs

/-- The rest of the string after a given byte. -/
def expect (b : UInt8) : List α → Option (List α)
  | [] => none
  | a :: s => if toByte a = some b then some s else none

/-- The rest of the string after a given run of bytes. -/
def expects : List UInt8 → List α → Option (List α)
  | [], s => some s
  | b :: bs, s => (expect b s).bind (expects bs)

/-- The value of a hexadecimal digit. -/
def hexValue (b : UInt8) : Option Nat :=
  if 0x30 ≤ b ∧ b ≤ 0x39 then some (b.toNat - 0x30)
  else if 0x61 ≤ b ∧ b ≤ 0x66 then some (b.toNat - 0x57)
  else if 0x41 ≤ b ∧ b ≤ 0x46 then some (b.toNat - 0x37)
  else none

/-- The code unit of four hexadecimal digits. -/
def hex4 (a b c d : α) : Option Nat := do
  let a ← (toByte a).bind hexValue
  let b ← (toByte b).bind hexValue
  let c ← (toByte c).bind hexValue
  let d ← (toByte d).bind hexValue
  some (((a * 16 + b) * 16 + c) * 16 + d)

/-- The byte a one-letter escape stands for. -/
def unescapeByte (b : UInt8) : Option UInt8 :=
  if b = 0x22 then some 0x22
  else if b = 0x5C then some 0x5C
  else if b = 0x2F then some 0x2F
  else if b = 0x62 then some 0x08
  else if b = 0x66 then some 0x0C
  else if b = 0x6E then some 0x0A
  else if b = 0x72 then some 0x0D
  else if b = 0x74 then some 0x09
  else none

/-- Cut a string at its closing quote. -/
def splitQuote : List α → Option (List α × List α)
  | [] => none
  | a :: s =>
      if toByte a = some 0x22 then some ([], s)
      else if toByte a = some 0x5C then
        match s with
        | [] => none
        | e :: s => (splitQuote s).map fun p => (a :: e :: p.1, p.2)
      else (splitQuote s).map fun p => (a :: p.1, p.2)

/-- Resolve the escapes of a string; control characters must be escaped. -/
def unescape : List α → Option (List α)
  | [] => some []
  | a :: s =>
      match toByte a with
      | none => (unescape s).map (a :: ·)
      | some b =>
          if b = 0x5C then
            match s with
            | [] => none
            | e :: s =>
                if toByte e = some 0x75 then
                  match s with
                  | h1 :: h2 :: h3 :: h4 :: s =>
                      match hex4 h1 h2 h3 h4 with
                      | none => none
                      | some n =>
                          if 0xD800 ≤ n ∧ n < 0xDC00 then
                            -- a high surrogate must be followed by a low one
                            match s with
                            | c :: u :: g1 :: g2 :: g3 :: g4 :: s =>
                                match hex4 g1 g2 g3 g4 with
                                | none => none
                                | some m =>
                                    if toByte c = some 0x5C ∧ toByte u = some 0x75 ∧
                                        0xDC00 ≤ m ∧ m < 0xE000 then
                                      (unescape s).map (ofBytes (utf8Encode
                                        (0x10000 + (n - 0xD800) * 0x400 + (m - 0xDC00))) ++ ·)
                                    else none
                            | _ => none
                          else if 0xDC00 ≤ n ∧ n < 0xE000 then none
                          else (unescape s).map (ofBytes (utf8Encode n) ++ ·)
                  | _ => none
                else
                  match (toByte e).bind unescapeByte with
                  | none => none
                  | some c => (unescape s).map (ofByte c :: ·)
          else if b < 0x20 then none
          else (unescape s).map (a :: ·)

/-- The string token after its opening quote, and the rest. -/
def parseString (s : List α) : Option (List α × List α) :=
  match splitQuote s with
  | none => none
  | some (raw, rest) =>
      if validUtf8 raw then (unescape raw).map fun t => (t, rest) else none

/-- The bytes of the longest run of number characters, and the rest. -/
def spanNumber : List α → List UInt8 × List α
  | [] => ([], [])
  | a :: s =>
      match toByte a with
      | some b => if isNumChar b then (b :: (spanNumber s).1, (spanNumber s).2) else ([], a :: s)
      | none => ([], a :: s)

variable [FloatFormat]

/-- The value of a number token. -/
def ofNumber (t : List UInt8) : Option (Json α) :=
  match scanNumber t with
  | none => none
  | some (neg, ds, isFloat) =>
      if isFloat then (FloatFormat.canon t).map .float
      else if neg then
        if digitsValue ds ≤ 2 ^ 63 then some (.integer (Int64.ofInt (-(digitsValue ds : Int))))
        else (FloatFormat.canon t).map .float
      else if digitsValue ds < 2 ^ 64 then some (.unsigned (UInt64.ofNat (digitsValue ds)))
      else (FloatFormat.canon t).map .float

mutual

/-- One value, and the rest of the text. -/
def parseValue : Nat → List α → Option (Json α × List α)
  | 0, _ => none
  | n + 1, s =>
      match skipWs s with
      | [] => none
      | a :: s =>
          if toByte a = some 0x7B then
            match expect 0x7D (skipWs s) with
            | some s => some (.obj [], s)
            | none => (parseField n [] s).map fun p => (.obj p.1, p.2)
          else if toByte a = some 0x5B then
            match expect 0x5D (skipWs s) with
            | some s => some (.arr [], s)
            | none =>
                match parseValue n s with
                | none => none
                | some (v, s) => (parseElems n s).map fun p => (.arr (v :: p.1), p.2)
          else if toByte a = some 0x22 then (parseString s).map fun p => (.str p.1, p.2)
          else if toByte a = some 0x6E then (expects (bytes "ull") s).map fun s => (.null, s)
          else if toByte a = some 0x74 then (expects (bytes "rue") s).map fun s => (.bool true, s)
          else if toByte a = some 0x66 then (expects (bytes "alse") s).map fun s => (.bool false, s)
          else
            let (t, rest) := spanNumber (a :: s)
            (ofNumber t).map fun v => (v, rest)

/-- The elements after the first, up to the closing bracket. -/
def parseElems : Nat → List α → Option (List (Json α) × List α)
  | 0, _ => none
  | n + 1, s =>
      match expect 0x5D (skipWs s) with
      | some s => some ([], s)
      | none =>
          match expect 0x2C (skipWs s) with
          | none => none
          | some s =>
              match parseValue n s with
              | none => none
              | some (v, s) => (parseElems n s).map fun p => (v :: p.1, p.2)

/-- A field, and those after it up to the closing brace, set into `acc`. -/
def parseField : Nat → List (Key × Json α) → List α → Option (List (Key × Json α) × List α)
  | 0, _, _ => none
  | n + 1, acc, s =>
      match (expect 0x22 (skipWs s)).bind parseString with
      | none => none
      | some (k, s) =>
          match toBytes k, expect 0x3A (skipWs s) with
          | some k, some s =>
              match parseValue n s with
              | none => none
              | some (v, s) =>
                  match expect 0x7D (skipWs s) with
                  | some s => some (insertField k v acc, s)
                  | none =>
                      match expect 0x2C (skipWs s) with
                      | none => none
                      | some s => parseField n (insertField k v acc) s
          | _, _ => none

end

/-- Skip a UTF-8 byte order mark. -/
def skipBom (s : List α) : List α := (expects [0xEF, 0xBB, 0xBF] s).getD s

/-- Nothing but blanks is left; the lexer takes a NUL byte for the end of the input. -/
def atEnd (s : List α) : Bool :=
  match skipWs s with
  | [] => true
  | a :: _ => toByte a == some 0

/-- `parse(text, nullptr, false)`: `none` stands for a discarded value.  Every
call consumes a symbol, so the length of the text is fuel enough. -/
def parse (s : List α) : Option (Json α) :=
  match parseValue (s.length + 1) (skipBom s) with
  | some (j, rest) => if atEnd rest then some j else none
  | none => none

end Json

end Codec
