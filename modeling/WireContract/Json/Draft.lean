import WireContract.Json.Fault

/-!
# JSON text, read as far as it goes

A `Draft` is what a text has shown up to the point where it stops making sense.  Nothing is lost on
the way: repeated keys stay, and the place of a fault in the text is its place in the draft.  A
reader that walks a draft from left to right therefore meets faults of the text and mismatches of
its values in the order in which they stand in the text.

Three kinds of content are faults only for a reader that needs them, and not for one that skips
over them: a number too large for a double, an escape for half of a character, and nesting beyond
`nestingLimit`.  A number cut off by the end of the text is malformed for a reader that skips it.
-/

namespace WireContract.Json

/-- How many arrays and objects may be open at once, plus one. -/
def nestingLimit : Nat := 128

/-- The faults met at a point of the text by a reader that builds the value there and by one that
skips it. -/
structure Stop where
  reading : Fault
  skipping : Fault
deriving Repr

/-- A JSON value as far as its text goes. -/
inductive Draft where
  | null
  | bool (b : Bool)
  | num (n : Except Fault Number)
  | str (s : Except Fault String)
  | arr (items : List Draft) (stop : Option Stop)
  | obj (fields : List (Except Fault String × Draft)) (stop : Option Stop)
  /-- Nothing that makes sense.  `bare` says that a word or number was begun. -/
  | broken (bare : Bool) (stop : Stop)
  /-- Something that stands where a key should. -/
  | misplaced (d : Draft)
deriving Inhabited

namespace Draft

/-- The same fault for every reader. -/
def Stop.both (fault : Fault) : Stop := ⟨fault, fault⟩

/-! ## Scanning

A scanned part comes with the text after it, or with the stop that ends the whole text. -/

/-- A part of the text and what follows it. -/
inductive Scan (α : Type) where
  | more (a : α) (rest : List Char)
  | stopped (stop : Stop)

/-- The blanks of JSON text. -/
def isSpace (c : Char) : Bool :=
  c == ' ' || c == '\t' || c == '\n' || c == '\r'

/-- The text from its first character that is no blank. -/
def skipSpace (cs : List Char) : List Char :=
  cs.dropWhile isSpace

/-- The fault of a text that should go on: it ends, or goes on wrongly. -/
def faultAt (cs : List Char) : Fault :=
  if cs.isEmpty then .truncated else .malformed

/-- The stop of a text that should go on. -/
def stopAt (cs : List Char) : Stop :=
  Stop.both (faultAt cs)

/-- The rest of a literal word. -/
def literal (d : Draft) : List Char → List Char → Scan Draft
  | [], rest => .more d rest
  | w :: ws, c :: cs => if c == w then literal d ws cs else .stopped (stopAt (c :: cs))
  | _ :: _, [] => .stopped (stopAt [])

/-! ### Strings -/

/-- The value of a hexadecimal digit. -/
def hexValue? (c : Char) : Option Nat :=
  if '0' ≤ c && c ≤ '9' then some (c.toNat - 48)
  else if 'a' ≤ c && c ≤ 'f' then some (c.toNat - 87)
  else if 'A' ≤ c && c ≤ 'F' then some (c.toNat - 55)
  else none

/-- Four hexadecimal digits.  With fewer than four bytes left the text counts as truncated. -/
def hexQuad (cs : List Char) : Except Fault (Nat × List Char) :=
  match cs with
  | a :: b :: c :: d :: rest =>
    match hexValue? a, hexValue? b, hexValue? c, hexValue? d with
    | some a, some b, some c, some d => .ok (((a * 16 + b) * 16 + c) * 16 + d, rest)
    | _, _, _, _ => .error .malformed
  | short =>
    if (String.ofList short).utf8ByteSize < 4 then .error .truncated else .error .malformed

/-- The first half of a surrogate pair. -/
def isHighSurrogate (n : Nat) : Bool :=
  0xD800 ≤ n && n ≤ 0xDBFF

/-- The second half of a surrogate pair. -/
def isLowSurrogate (n : Nat) : Bool :=
  0xDC00 ≤ n && n ≤ 0xDFFF

/-- The second half that completes a pair, or the fault of its absence. -/
def lowSurrogate (cs : List Char) : Except Fault (Nat × List Char) :=
  match cs with
  | '\\' :: 'u' :: rest =>
    match hexQuad rest with
    | .error fault => .error fault
    | .ok (n, rest) => if isLowSurrogate n then .ok (n, rest) else .error .malformed
  | ['\\'] => .error .truncated
  | [] => .error .truncated
  | _ => .error .malformed

/-- The character of a one-letter escape. -/
def shortEscape? (c : Char) : Option Char :=
  if c == '"' || c == '\\' || c == '/' then some c
  else if c == 'b' then some '\x08'
  else if c == 'f' then some '\x0c'
  else if c == 'n' then some '\n'
  else if c == 'r' then some '\r'
  else if c == 't' then some '\t'
  else none

/-- The rest of a string after its opening quote.  `acc` holds the characters so far in reverse,
`fault` the first escape that stands for half of a character. -/
def string (fuel : Nat) (acc : List Char) (fault : Option Fault) (cs : List Char) :
    Scan (Except Fault String) :=
  let stop (f : Fault) : Scan (Except Fault String) := .stopped ⟨fault.getD f, f⟩
  match fuel, cs with
  | 0, _ => stop .truncated
  | _, [] => stop .truncated
  | _ + 1, '"' :: rest =>
    match fault with
    | some f => .more (.error f) rest
    | none => .more (.ok (String.ofList acc.reverse)) rest
  | fuel + 1, '\\' :: 'u' :: rest =>
    match hexQuad rest with
    | .error f => stop f
    | .ok (n, rest) =>
      if isHighSurrogate n then
        match lowSurrogate rest with
        | .ok (m, rest) =>
          let c := Char.ofNat ((n - 0xD800) * 0x400 + (m - 0xDC00) + 0x10000)
          string fuel (c :: acc) fault rest
        | .error f => string fuel acc (fault.or (some f)) rest
      else if isLowSurrogate n then string fuel acc (fault.or (some .malformed)) rest
      else string fuel (Char.ofNat n :: acc) fault rest
  | fuel + 1, '\\' :: c :: rest =>
    match shortEscape? c with
    | some c => string fuel (c :: acc) fault rest
    | none => stop .malformed
  | _, ['\\'] => stop .truncated
  | fuel + 1, c :: rest =>
    if c.toNat < 0x20 then stop .malformed else string fuel (c :: acc) fault rest

/-! ### Numbers -/

/-- The digits kept of a number: as many as fit in 64 bits. -/
def digitLimit : Nat := 18446744073709551616

/-- The largest magnitude of a negative integer. -/
def negativeLimit : Nat := 9223372036854775808

/-- Appends digits to a significand until it would no longer fit; gives the significand, and the
number of digits used and left over. -/
def gather (significand : Nat) : List Char → Nat × Nat × Nat
  | [] => (significand, 0, 0)
  | d :: ds =>
    let next := significand * 10 + (d.toNat - 48)
    if next < digitLimit then
      let (s, used, left) := gather next ds
      (s, used + 1, left)
    else (significand, 0, ds.length + 1)

/-- The number with the given sign, whole digits, fraction digits and exponent.  Without fraction
and exponent it is an integer if it fits in 64 bits. -/
def number (negative : Bool) (whole : List Char) (fraction : Option (List Char))
    (exponent : Option Int) : Except Fault Number :=
  let (head, _, left) := gather 0 whole
  let double (digits : Nat) (power : Int) : Except Fault Number :=
    match Double.ofScaled negative digits power with
    | some x => .ok (.double x)
    | none => .error .malformed
  match fraction, exponent with
  | none, none =>
    if left != 0 then double head left
    else if !negative then .ok (.int head)
    else if head == 0 || negativeLimit < head then double head 0
    else .ok (.int (-head))
  | fraction, exponent =>
    let (digits, used, _) := gather head (fraction.getD [])
    double digits ((left : Int) - used + exponent.getD 0)

/-- Splits leading digits off. -/
def digits (cs : List Char) : List Char × List Char :=
  cs.span Char.isDigit

/-- The exponent part of a number, if there is one. -/
def exponentPart (cs : List Char) : Except Fault (Option Int × List Char) :=
  match cs with
  | e :: rest =>
    if e == 'e' || e == 'E' then
      let (negative, rest) :=
        match rest with
        | '-' :: rest => (true, rest)
        | '+' :: rest => (false, rest)
        | rest => (false, rest)
      match digits rest with
      | ([], rest) => .error (faultAt rest)
      | (ds, rest) =>
        let n : Int := ds.foldl (fun n d => n * 10 + (d.toNat - 48)) 0
        .ok (some (if negative then -n else n), rest)
    else .ok (none, cs)
  | [] => .ok (none, [])

/-- The fraction part of a number, if there is one. -/
def fractionPart (cs : List Char) : Except Fault (Option (List Char) × List Char) :=
  match cs with
  | '.' :: rest =>
    match digits rest with
    | ([], rest) => .error (faultAt rest)
    | (ds, rest) => .ok (some ds, rest)
  | _ => .ok (none, cs)

/-- The stop of a number that breaks off; who skips over it does not tell an end of the text from a
wrong character. -/
def Stop.inNumber (fault : Fault) : Stop := ⟨fault, .malformed⟩

/-- A number after its sign. -/
def numeral (negative : Bool) (cs : List Char) : Scan Draft :=
  match digits cs with
  | ([], rest) => .stopped (Stop.inNumber (faultAt rest))
  | ('0' :: _ :: _, _) => .stopped (Stop.both .malformed)
  | (whole, rest) =>
    match fractionPart rest with
    | .error f => .stopped (Stop.inNumber f)
    | .ok (fraction, rest) =>
      match exponentPart rest with
      | .error f => .stopped (Stop.inNumber f)
      | .ok (exponent, rest) => .more (.num (number negative whole fraction exponent)) rest

/-! ### Values -/

/-- A value with the text after it; no text follows a value that stops. -/
abbrev Read := Draft × Option (List Char)

/-- What a scan of a value without parts gives. -/
def Scan.toRead : Scan Draft → Read
  | .more d rest => (d, some rest)
  | .stopped stop => (.broken true stop, none)

mutual

/-- One value, after blanks. -/
def value (fuel : Nat) (cs : List Char) : Read :=
  match fuel with
  | 0 => (.broken false (Stop.both .truncated), none)
  | fuel + 1 =>
    match skipSpace cs with
    | [] => (.broken false (Stop.both .truncated), none)
    | c :: rest =>
      if c == 'n' then (literal .null ['u', 'l', 'l'] rest).toRead
      else if c == 't' then (literal (.bool true) ['r', 'u', 'e'] rest).toRead
      else if c == 'f' then (literal (.bool false) ['a', 'l', 's', 'e'] rest).toRead
      else if c == '-' then (numeral true rest).toRead
      else if Char.isDigit c then (numeral false (c :: rest)).toRead
      else if c == '"' then
        match string rest.length.succ [] none rest with
        | .more s rest => (.str s, some rest)
        | .stopped stop => (.broken false stop, none)
      else if c == '[' then
        match skipSpace rest with
        | ']' :: rest => (.arr [] none, some rest)
        | [] => (.arr [] (some (Stop.both .truncated)), none)
        | rest =>
          let (items, stop, rest) := items fuel rest
          (.arr items stop, rest)
      else if c == '\x7b' then
        match skipSpace rest with
        | '\x7d' :: rest => (.obj [] none, some rest)
        | [] => (.obj [] (some (Stop.both .truncated)), none)
        | rest =>
          let (fields, stop, rest) := fields fuel rest
          (.obj fields stop, rest)
      else (.broken false (Stop.both .malformed), none)

/-- The items of an array up to its end, the first of them next in the text. -/
def items (fuel : Nat) (cs : List Char) : List Draft × Option Stop × Option (List Char) :=
  match fuel with
  | 0 => ([], some (Stop.both .truncated), none)
  | fuel + 1 =>
    match value fuel cs with
    | (d, none) => ([d], none, none)
    | (d, some rest) =>
      match skipSpace rest with
      | ']' :: rest => ([d], none, some rest)
      | ',' :: rest =>
        match skipSpace rest with
        | ']' :: _ => ([d, .broken false (Stop.both .malformed)], none, none)
        | rest =>
          let (ds, stop, rest) := items fuel rest
          (d :: ds, stop, rest)
      | rest => ([d], some (stopAt rest), none)

/-- The fields of an object up to its end, the first of them next in the text. -/
def fields (fuel : Nat) (cs : List Char) :
    List (Except Fault String × Draft) × Option Stop × Option (List Char) :=
  match fuel with
  | 0 => ([], some (Stop.both .truncated), none)
  | fuel + 1 =>
    let unread (stop : Stop) : Except Fault String × Draft :=
      (.error stop.reading, .broken false stop)
    match skipSpace cs with
    | '"' :: rest =>
      match string rest.length.succ [] none rest with
      | .stopped stop => ([unread stop], none, none)
      | .more key rest =>
        match skipSpace rest with
        | ':' :: rest =>
          match value fuel rest with
          | (d, none) => ([(key, d)], none, none)
          | (d, some rest) =>
            match skipSpace rest with
            | '\x7d' :: rest => ([(key, d)], none, some rest)
            | ',' :: rest =>
              let (entries, stop, rest) := fields fuel rest
              ((key, d) :: entries, stop, rest)
            | rest => ([(key, d)], some (stopAt rest), none)
        | rest => ([(key, .broken false (stopAt rest))], none, none)
    | [] => ([unread (stopAt [])], none, none)
    | rest => ([(.error .malformed, .misplaced (value fuel rest).1)], none, none)

end

end Draft

/-! ## Walking a draft -/

namespace Draft

mutual

/-- The fault met by a reader that only skips over the draft. -/
def skip : Draft → Option Fault
  | arr items stop => (skipItems items).or (stop.map (·.skipping))
  | obj fields stop => (skipFields fields).or (stop.map (·.skipping))
  | broken _ stop => some stop.skipping
  | misplaced _ => some .malformed
  | _ => none

/-- The first fault met in skipping over the items. -/
def skipItems : List Draft → Option Fault
  | [] => none
  | d :: ds => (skip d).or (skipItems ds)

/-- The first fault met in skipping over the fields. -/
def skipFields : List (Except Fault String × Draft) → Option Fault
  | [] => none
  | (_, d) :: ds => (skip d).or (skipFields ds)

end

/-- Whether an array or object has come to its end. -/
def closed (stop : Option Stop) : Except Fault Unit :=
  match stop with
  | none => .ok ()
  | some stop => .error stop.reading

mutual

/-- The whole value, with `limit - 1` more levels of nesting allowed. -/
def complete (limit : Nat) : Draft → Except Fault Json
  | null => .ok .null
  | bool b => .ok (.bool b)
  | num n => n.map .num
  | str s => s.map .str
  | arr items stop => do
    if limit ≤ 1 then .error .malformed
    let items ← completeItems (limit - 1) items
    closed stop
    return .arr items
  | obj fields stop => do
    if limit ≤ 1 then .error .malformed
    let fields ← completeFields (limit - 1) [] fields
    closed stop
    return .obj fields
  | broken _ stop => .error stop.reading
  | misplaced _ => .error .malformed

/-- The whole items. -/
def completeItems (limit : Nat) : List Draft → Except Fault (List Json)
  | [] => .ok []
  | d :: ds => do
    let x ← complete limit d
    let xs ← completeItems limit ds
    return x :: xs

/-- The whole fields, after those already read. -/
def completeFields (limit : Nat) (acc : List (String × Json)) :
    List (Except Fault String × Draft) → Except Fault (List (String × Json))
  | [] => .ok acc
  | (key, d) :: ds => do
    let key ← key
    let x ← complete limit d
    completeFields limit (Json.insert acc key x) ds

end

mutual

/-- A value that is already whole, as a draft without faults. -/
def ofJson : Json → Draft
  | .null => null
  | .bool b => bool b
  | .num n => num (.ok n)
  | .str s => str (.ok s)
  | .arr items => arr (ofItems items) none
  | .obj fields => obj (ofFields fields) none

/-- Whole items as drafts. -/
def ofItems : List Json → List Draft
  | [] => []
  | x :: xs => ofJson x :: ofItems xs

/-- Whole fields as drafts. -/
def ofFields : List (String × Json) → List (Except Fault String × Draft)
  | [] => []
  | (key, x) :: xs => (.ok key, ofJson x) :: ofFields xs

end

/-- The draft of a text, and the fault of what stands after the value, if anything does.  An opening
bracket takes two steps, one for the value and one for its first item, so twice the length of the
text is enough. -/
def ofText (cs : List Char) : Draft × Option Fault :=
  match value (2 * cs.length + 2) cs with
  | (d, some rest) => (d, if (skipSpace rest).isEmpty then none else some .malformed)
  | (d, none) => (d, none)

end Draft

/-- The value of a text. -/
def parse (s : String) : Except Fault Json := do
  let (draft, after) := Draft.ofText s.toList
  let value ← draft.complete nestingLimit
  match after with
  | none => return value
  | some fault => .error fault

end WireContract.Json
