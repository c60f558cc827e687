import Mathlib.Data.List.DropRight
import Mathlib.Logic.Function.Basic
import MateKeyring.Egg.Buffer
import MateKeyring.Lib.Base64
import MateKeyring.Lib.CText
import MateKeyring.Lib.Search

/-!
# The PEM text of `egg-openssl.c`

Text is a list of bytes, and a pointer into it is the text from there on. A quark is the string it
stands for. A table of headers is a function; the writer takes the pairs in the order in which the
hash table gives them.
-/

set_option autoImplicit false

namespace MateKeyring.Egg.Pem

open Lib (ascii isSpace strstrLen)

/-- `PEM_SUFF`. -/
def suff : Bytes := [0x2d, 0x2d, 0x2d, 0x2d, 0x2d]

/-- `PEM_PREF_BEGIN`. -/
def prefBegin : Bytes := suff ++ [0x42, 0x45, 0x47, 0x49, 0x4e, 0x20]

/-- `PEM_PREF_END`. -/
def prefEnd : Bytes := suff ++ [0x45, 0x4e, 0x44, 0x20]

example : prefBegin = ascii "-----BEGIN " ∧ prefEnd = ascii "-----END " := by decide

abbrev newline : UInt8 := 0x0a

abbrev colon : UInt8 := 0x3a

/-! ## Headers -/

/-- A `GHashTable` of headers. -/
abbrev Headers := Bytes → Option Bytes

/-- `egg_openssl_headers_new`. -/
def eggOpensslHeadersNew : Headers := fun _ => none

/-- `g_ascii_isspace`. -/
def asciiIsSpace (c : UInt8) : Bool := c == 0x20 || c == 0x09 || c == 0x0a || c == 0x0c || c == 0x0d

/-- `g_strstrip`. -/
def strstrip (s : Bytes) : Bytes := (s.dropWhile asciiIsSpace).rdropWhile asciiIsSpace

/-- One line of `parse_header_lines`. -/
def parseHeaderLine (result : Option Headers) (line : Bytes) : Option Headers :=
  let line := strstrip line
  match line.dropWhile (· ≠ colon) with
  | [] => result
  | _ :: value =>
    let name := line.takeWhile (· ≠ colon)
    some (Function.update (result.getD eggOpensslHeadersNew) (strstrip name) (some (strstrip value)))

/-- `parse_header_lines`. -/
def parseHeaderLines (text : Bytes) (result : Option Headers) : Option Headers :=
  (text.splitOn newline).foldl parseHeaderLine result

/-! ## Reading -/

/-- `strncmp (data, other, strlen (other)) == 0`. -/
def startsWith : Bytes → Bytes → Checked Bool
  | _, [] => .ok true
  | [], _ :: _ => .error .outOfBounds
  | c :: data, d :: other => if c = d then startsWith data other else .ok false

/-- `pem_find_begin`: the type, and the text from the byte after this `---BEGIN---`. -/
def pemFindBegin (data : Bytes) : Checked (Option (Bytes × Bytes)) :=
  match strstrLen prefBegin data with
  | none => .ok none
  | some (_, pref) =>
    match strstrLen suff (pref.drop prefBegin.length) with
    | none => .ok none
    | some (stype, rest) =>
      if newline ∈ pref.take prefBegin.length ++ stype then .ok none
      else do
        cAssert (stype ≠ [])
        pure (some (stype, rest.drop suff.length))

/-- `pem_find_end`: the text before this `---END---`, and the text from its beginning. -/
def pemFindEnd (data stype : Bytes) : Checked (Option (Bytes × Bytes)) :=
  match strstrLen prefEnd data with
  | none => .ok none
  | some (block, pref) => do
      let data := pref.drop prefEnd.length
      if ← startsWith data stype then
        if ← startsWith (data.drop stype.length) suff then pure (some (block, pref)) else pure none
      else pure none

/-- The inner loop of `pem_parse_block`, at the start of a line: the second line end of a pair with
only white space between, or the first byte of the line that is not white space. The block is followed
by the `-` of its `---END---`, which is not white space. -/
def skipSpace : Bytes → Bytes ⊕ Bytes
  | [] => .inr []
  | c :: x => if isSpace c then if c = newline then .inl (c :: x) else skipSpace x else .inr (c :: x)

/-- The outer loop of `pem_parse_block`: `hend`. -/
def headerEnd : Nat → Bytes → Option Bytes
  | 0, _ => none
  | fuel + 1, p =>
    match p.dropWhile (· ≠ newline) with
    | [] => none
    | _ :: x =>
      match skipSpace x with
      | .inl hend => some hend
      | .inr p => headerEnd fuel p

/-- `pem_parse_block`: the bytes and the headers. -/
def pemParseBlock (data : Bytes) (headers : Option Headers) :
    Checked (Option Bytes × Option Headers) := do
  cAssert (data ≠ [])
  let hend := headerEnd data.length data
  let decoded := Lib.Base64.decode (hend.getD data)
  if decoded = [] then pure (none, headers)
  else
    match hend with
    | none => pure (some decoded, headers)
    | some hend =>
      pure (some decoded, parseHeaderLines (data.take (data.length - hend.length)) headers)

/-- What the callback is called with. -/
structure Callback where
  type : Bytes
  data : Bytes
  headers : Option Headers

/-- The loop of `egg_openssl_pem_parse`. -/
def parseFrom : Nat → Bytes → Option Headers → Checked (List Callback)
  | 0, _, _ => .ok []
  | fuel + 1, data, headers => do
      match ← pemFindBegin data with
      | none => pure []
      | some (type, beg) =>
        match ← pemFindEnd beg type with
        | none => pure []
        | some (block, pref) =>
          -- the next block is looked for from the middle of this `---END---`
          let next := pref.drop suff.length
          if block = [] then parseFrom fuel next headers
          else
            match ← pemParseBlock block headers with
            | (none, headers) => parseFrom fuel next headers
            | (some decoded, headers) => do
                let others ← parseFrom fuel next (headers.map fun _ => eggOpensslHeadersNew)
                pure ({ type, data := decoded, headers } :: others)

/-- `egg_openssl_pem_parse`. Each turn of the loop takes some of the text. -/
def eggOpensslPemParse (data : Bytes) : Checked (List Callback) :=
  parseFrom data.length data none

/-! ## Writing -/

/-- `append_each_header`. -/
def appendEachHeader (header : Bytes × Bytes) : Bytes :=
  header.1 ++ [colon, 0x20] ++ header.2 ++ [newline]

/-- The loop that breaks lines at 64 characters. -/
def breakLines : Nat → Nat → Bytes → Bytes
  | 0, _, s => s
  | fuel + 1, i, s => if i < s.length then breakLines fuel (i + 1 + 64) (s.insertIdx i newline) else s

/-- `egg_openssl_pem_write`. -/
def eggOpensslPemWrite (data type : Bytes) (headers : List (Bytes × Bytes)) : Checked Bytes := do
  let string := prefBegin ++ type ++ suff ++ [newline]
  let string :=
    if headers ≠ [] then string ++ headers.flatMap appendEachHeader ++ [newline] else string
  let estimate := data.length * 4 / 3 + data.length * 4 / (3 * 65) + 7
  let encoded := Lib.Base64.encode data ++ [newline]
  cAssert (encoded.length ≤ estimate)
  pure (string ++ breakLines encoded.length 64 encoded ++ prefEnd ++ type ++ suff ++ [newline])

end MateKeyring.Egg.Pem
