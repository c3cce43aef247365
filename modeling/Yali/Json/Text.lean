import Mathlib.Tactic.Common
import Yali.Json.Doc

/-!
# Compact JSON text

A printer of documents in `serde_json`'s compact form and a parser that inverts
it (`ofText_toText`). It is one text layer that keeps documents; it does not
follow `serde_json` where a number has a fraction, which is printed by its bits,
nor does the parser accept the spaces that the printer never writes.
-/

namespace Yali.Text

/-! ## Numbers -/

/-- The digit `d < 10`. -/
def digitChar (d : ℕ) : Char := Char.ofNat (48 + d)

/-- The decimal digits of a number, without leading zeros. -/
def decimal (n : ℕ) : List Char :=
  if n < 10 then [digitChar n] else decimal (n / 10) ++ [digitChar (n % 10)]

/-- The value of a list of digits after the value `acc`. -/
def undecimal (acc : ℕ) (ds : List Char) : ℕ := ds.foldl (fun a c => 10 * a + (c.toNat - 48)) acc

/-- A negative integer is written from its absolute value, a double as its bits with `.0`. -/
def numberText : Number → List Char
  | .posInt n => decimal n.toNat
  | .negInt n => '-' :: decimal (n.val + 1)
  | .float d => decimal d.bits.toNat ++ ['.', '0']

/-- An integer from `0` on, or the bits of a number with a fraction. -/
def parseUnsigned (cs : List Char) : Option (Json × List Char) :=
  let n := UInt64.ofNat (undecimal 0 (cs.takeWhile Char.isDigit))
  let r := cs.dropWhile Char.isDigit
  if r.head? = some '.' then
    if h : n >>> 52 &&& 0x7ff ≠ 0x7ff then some (.num (.float ⟨n, h⟩), r.drop 2) else none
  else some (.num (.posInt n), r)

/-- The absolute value is from 1 to `2 ^ 63`. -/
def parseNegative (cs : List Char) : Option (Json × List Char) :=
  let n := undecimal 0 (cs.takeWhile Char.isDigit)
  if h : n - 1 < 2 ^ 63 then some (.num (.negInt ⟨n - 1, h⟩), cs.dropWhile Char.isDigit) else none

/-- A number, told from its first character. -/
def parseNumber (cs : List Char) : Option (Json × List Char) :=
  if cs.head? = some '-' then parseNegative cs.tail else parseUnsigned cs

/-! ## Strings -/

/-- The digit `d < 16`, in lower case. -/
def hexChar (d : ℕ) : Char := if d < 10 then Char.ofNat (48 + d) else Char.ofNat (87 + d)

/-- The value of a digit, which `hexChar` inverts on the digits it gives. -/
def hexVal (c : Char) : ℕ := if c.toNat < 58 then c.toNat - 48 else c.toNat - 87

/-- The escapes of `serde_json`: two characters where JSON has them, `\u00XX` for the other
control characters. -/
def escapeChar (c : Char) : List Char :=
  if c = '"' then ['\\', '"']
  else if c = '\\' then ['\\', '\\']
  else if c = '\n' then ['\\', 'n']
  else if c = '\r' then ['\\', 'r']
  else if c = '\t' then ['\\', 't']
  else if c = '\x08' then ['\\', 'b']
  else if c = '\x0c' then ['\\', 'f']
  else if c.toNat < 32 then ['\\', 'u', '0', '0', hexChar (c.toNat / 16), hexChar (c.toNat % 16)]
  else [c]

/-- The character that a two-character escape stands for. -/
def unescape (c : Char) : Option Char :=
  if c = 'n' then some '\n'
  else if c = 'r' then some '\r'
  else if c = 't' then some '\t'
  else if c = 'b' then some '\x08'
  else if c = 'f' then some '\x0c'
  else if c = '"' ∨ c = '\\' ∨ c = '/' then some c
  else none

/-- The characters up to the closing quote. -/
def parseString : List Char → Option (List Char × List Char)
  | '"' :: r => some ([], r)
  | '\\' :: 'u' :: a :: b :: x :: y :: r =>
    (parseString r).map fun p =>
      (Char.ofNat (16 * (16 * (16 * hexVal a + hexVal b) + hexVal x) + hexVal y) :: p.1, p.2)
  | '\\' :: c :: r => (unescape c).bind fun c => (parseString r).map fun p => (c :: p.1, p.2)
  | c :: r => (parseString r).map fun p => (c :: p.1, p.2)
  | [] => none

/-- A string in its quotes. -/
def stringText (s : String) : List Char := '"' :: (s.toList.flatMap escapeChar ++ ['"'])

/-! ## Documents -/

mutual

/-- The text of a document. The first element is written with the bracket, the others each
with the comma before it. -/
def print : Json → List Char
  | .null => ['n', 'u', 'l', 'l']
  | .bool true => ['t', 'r', 'u', 'e']
  | .bool false => ['f', 'a', 'l', 's', 'e']
  | .num n => numberText n
  | .str s => stringText s
  | .arr [] => ['[', ']']
  | .arr (x :: xs) => '[' :: (print x ++ printElems xs)
  | .obj [] => ['\x7b', '\x7d']
  | .obj ((k, v) :: fs) => '\x7b' :: (stringText k ++ ':' :: (print v ++ printMembers fs))

/-- The elements from the second on, and the closing bracket. -/
def printElems : List Json → List Char
  | [] => [']']
  | x :: xs => ',' :: (print x ++ printElems xs)

/-- The members from the second on, and the closing brace. -/
def printMembers : List (String × Json) → List Char
  | [] => ['\x7d']
  | (k, v) :: fs => ',' :: (stringText k ++ ':' :: (print v ++ printMembers fs))

end

mutual

/-- A document and what is left of the text; the number bounds the depth of the recursion. -/
def parse : ℕ → List Char → Option (Json × List Char)
  | 0, _ => none
  | n + 1, cs =>
    match cs with
    | 'n' :: 'u' :: 'l' :: 'l' :: r => some (.null, r)
    | 't' :: 'r' :: 'u' :: 'e' :: r => some (.bool true, r)
    | 'f' :: 'a' :: 'l' :: 's' :: 'e' :: r => some (.bool false, r)
    | '"' :: r => (parseString r).map fun p => (.str (.ofList p.1), p.2)
    | '[' :: ']' :: r => some (.arr [], r)
    | '[' :: r => do
      let (x, r) ← parse n r
      let (xs, r) ← parseElems n r
      some (.arr (x :: xs), r)
    | '\x7b' :: '\x7d' :: r => some (.obj [], r)
    | '\x7b' :: r => do
      let (kv, r) ← parseMember n r
      let (fs, r) ← parseMembers n r
      some (.obj (kv :: fs), r)
    | cs => parseNumber cs

/-- The elements after the first. -/
def parseElems : ℕ → List Char → Option (List Json × List Char)
  | 0, _ => none
  | n + 1, cs =>
    match cs with
    | ']' :: r => some ([], r)
    | ',' :: r => do
      let (x, r) ← parse n r
      let (xs, r) ← parseElems n r
      some (x :: xs, r)
    | _ => none

/-- The members after the first. -/
def parseMembers : ℕ → List Char → Option (List (String × Json) × List Char)
  | 0, _ => none
  | n + 1, cs =>
    match cs with
    | '\x7d' :: r => some ([], r)
    | ',' :: r => do
      let (kv, r) ← parseMember n r
      let (fs, r) ← parseMembers n r
      some (kv :: fs, r)
    | _ => none

/-- A name, a colon and a document. -/
def parseMember : ℕ → List Char → Option ((String × Json) × List Char)
  | 0, _ => none
  | n + 1, cs =>
    match cs with
    | '"' :: r => do
      match ← parseString r with
      | (k, ':' :: r) =>
        let (v, r) ← parse n r
        some ((.ofList k, v), r)
      | _ => none
    | _ => none

end

/-- Every document has a text. -/
def toText (j : Json) : Option String := some (.ofList (print j))

/-- The whole text must be taken. Its length is depth enough. -/
def ofText (s : String) : Option Json :=
  match parse (s.toList.length + 1) s.toList with
  | some (j, []) => some j
  | _ => none

/-! ## Numbers are read back -/

theorem digitChar_all : ∀ d < 10, (digitChar d).isDigit = true ∧ (digitChar d).toNat - 48 = d := by
  decide

/-- Digits and nothing else. -/
theorem decimal_isDigit (n : ℕ) : ∀ c ∈ decimal n, c.isDigit = true := by
  induction n using Nat.strong_induction_on with
  | _ n ih =>
    rw [decimal]
    split
    · rename_i h
      simpa using (digitChar_all n h).1
    · intro c hc
      rcases List.mem_append.1 hc with hc | hc
      · exact ih (n / 10) (by omega) c hc
      · rw [List.mem_singleton.1 hc]
        exact (digitChar_all (n % 10) (by omega)).1

theorem decimal_ne_nil (n : ℕ) : decimal n ≠ [] := by
  rw [decimal]; split <;> simp

/-- The digits of a number have its value. -/
theorem undecimal_decimal (n : ℕ) : undecimal 0 (decimal n) = n := by
  induction n using Nat.strong_induction_on with
  | _ n ih =>
    rw [decimal]
    split
    · rename_i h
      simp [undecimal, (digitChar_all n h).2]
    · -- all digits but the last are those of `n / 10`
      have h := ih (n / 10) (by omega)
      unfold undecimal at h ⊢
      rw [List.foldl_append, h]
      simp only [List.foldl_cons, List.foldl_nil]
      rw [(digitChar_all (n % 10) (by omega)).2]
      omega

/-- What follows a value does not go on with a digit or a fraction. -/
def Ends (r : List Char) : Prop := ∀ c ∈ r.head?, c.isDigit = false ∧ c ≠ '.'

/-- Where the digits of a number end. -/
theorem takeWhile_digits {ds r : List Char} (hd : ∀ c ∈ ds, c.isDigit = true)
    (hr : ∀ c ∈ r.head?, c.isDigit = false) :
    (ds ++ r).takeWhile Char.isDigit = ds ∧ (ds ++ r).dropWhile Char.isDigit = r := by
  induction ds with
  | nil =>
    cases r with
    | nil => simp
    | cons c r => simp [hr c rfl]
  | cons d ds ih =>
    have hc := hd d List.mem_cons_self
    have h := ih fun c hc => hd c (List.mem_cons_of_mem _ hc)
    simp [hc, h.1, h.2]

theorem head_decimal (n : ℕ) (r : List Char) : ∃ c, (decimal n ++ r).head? = some c ∧ c.isDigit = true := by
  obtain ⟨c, ds, h⟩ := List.exists_cons_of_ne_nil (decimal_ne_nil n)
  have hmem : c ∈ decimal n := by
    rw [h]
    exact List.mem_cons_self
  refine ⟨c, ?_, decimal_isDigit n c hmem⟩
  rw [h]
  rfl

theorem parseNumber_decimal (n : ℕ) (r : List Char) :
    parseNumber (decimal n ++ r) = parseUnsigned (decimal n ++ r) := by
  obtain ⟨c, hc, hd⟩ := head_decimal n r
  unfold parseNumber
  rw [hc, if_neg]
  rintro ⟨⟩
  exact absurd hd (by decide)

/-- **A number is read back**, with what follows it. -/
theorem parseNumber_text (n : Number) {r : List Char} (hr : Ends r) :
    parseNumber (numberText n ++ r) = some (.num n, r) := by
  cases n with
  | posInt n =>
    have h := takeWhile_digits (decimal_isDigit n.toNat) fun c hc => (hr c hc).1
    have hdot : r.head? ≠ some '.' := fun h => (hr _ h).2 rfl
    simp only [numberText, parseNumber_decimal, parseUnsigned, h.1, h.2, undecimal_decimal, if_neg hdot]
    simp
  | negInt n =>
    have h := takeWhile_digits (decimal_isDigit (n.val + 1)) fun c hc => (hr c hc).1
    simp [numberText, parseNumber, parseNegative, h.1, h.2, undecimal_decimal]
  | float d =>
    have h := takeWhile_digits (r := '.' :: '0' :: r) (decimal_isDigit d.bits.toNat) (by simp)
    have hd : UInt64.ofNat (undecimal 0 (decimal d.bits.toNat)) = d.bits := by
      rw [undecimal_decimal]; simp
    simp only [numberText, List.append_assoc, List.cons_append, List.nil_append, parseNumber_decimal,
      parseUnsigned, h.1, h.2, hd]
    simp [d.finite]

/-! ## Strings are read back -/

theorem hex_all : ∀ d < 16, hexVal (hexChar d) = d := by decide

/-- A character is read back from its escape. -/
theorem parseString_escape (c : Char) (r : List Char) :
    parseString (escapeChar c ++ r) = (parseString r).map fun p => (c :: p.1, p.2) := by
  unfold escapeChar
  split
  · rename_i h; subst h; simp [parseString, unescape]
  split
  · rename_i h; subst h; simp [parseString, unescape]
  split
  · rename_i h; subst h; simp [parseString, unescape]
  split
  · rename_i h; subst h; simp [parseString, unescape]
  split
  · rename_i h; subst h; simp [parseString, unescape]
  split
  · rename_i h; subst h; simp [parseString, unescape]
  split
  · rename_i h; subst h; simp [parseString, unescape]
  split
  · -- a control character, by its code
    have h1 := hex_all (c.toNat / 16) (by omega)
    have h2 := hex_all (c.toNat % 16) (by omega)
    have h0 : hexVal '0' = 0 := by decide
    have hcode : 16 * (16 * (16 * 0 + 0) + c.toNat / 16) + c.toNat % 16 = c.toNat := by omega
    simp only [List.cons_append, List.nil_append, parseString, h0, h1, h2]
    rw [hcode, Char.ofNat_toNat]
  · -- neither a quote nor a backslash
    rename_i hq hb _ _ _ _ _ _
    rw [List.cons_append, List.nil_append, parseString.eq_def]
    split <;> simp_all

/-- **A string is read back**, with what follows its closing quote. -/
theorem parseString_text (s : String) (r : List Char) :
    parseString (s.toList.flatMap escapeChar ++ '"' :: r) = some (s.toList, r) := by
  induction s.toList with
  | nil => simp [parseString]
  | cons c cs ih => rw [List.flatMap_cons, List.append_assoc, parseString_escape, ih]; rfl

/-! ## Documents are read back -/

/-- No other case of `parse` starts with a digit or a sign. -/
theorem parse_number {n : ℕ} {cs : List Char} {c : Char} (hc : cs.head? = some c)
    (h : c.isDigit = true ∨ c = '-') : parse (n + 1) cs = parseNumber cs := by
  obtain ⟨cs, rfl⟩ : ∃ cs', cs = c :: cs' := by
    cases cs with
    | nil => exact absurd hc (by simp)
    | cons d cs =>
      obtain rfl : d = c := by simpa using hc
      exact ⟨cs, rfl⟩
  rw [parse.eq_def]
  simp only
  split <;> first | rfl | (rename_i heq; injection heq with h1; subst h1; exact absurd h (by decide))

/-- A list with a first element. -/
theorem parse_arr {n : ℕ} {r : List Char} (h : r.head? ≠ some ']') :
    parse (n + 1) ('[' :: r) = (parse n r).bind fun p => (parseElems n p.2).bind fun q =>
      some (.arr (p.1 :: q.1), q.2) := by
  rw [parse.eq_def]
  simp only
  split <;> simp_all

/-- An object with a first member. -/
theorem parse_obj {n : ℕ} {r : List Char} (h : r.head? ≠ some '\x7d') :
    parse (n + 1) ('\x7b' :: r) = (parseMember n r).bind fun p => (parseMembers n p.2).bind fun q =>
      some (.obj (p.1 :: q.1), q.2) := by
  rw [parse.eq_def]
  simp only
  split <;> simp_all

theorem head_text (n : Number) (r : List Char) :
    ∃ c, (numberText n ++ r).head? = some c ∧ (c.isDigit = true ∨ c = '-') := by
  cases n with
  | posInt n => exact (head_decimal _ r).imp fun c h => ⟨h.1, Or.inl h.2⟩
  | negInt n => exact ⟨'-', rfl, Or.inr rfl⟩
  | float d =>
    simp only [numberText, List.append_assoc]
    exact (head_decimal _ _).imp fun c h => ⟨h.1, Or.inl h.2⟩

/-- No text of a document starts as the end of a list. -/
theorem head_print (j : Json) (r : List Char) : (print j ++ r).head? ≠ some ']' := by
  cases j with
  | num n =>
    obtain ⟨c, hc, h⟩ := head_text n r
    simp only [print, hc]
    rintro ⟨⟩
    exact absurd h (by decide)
  | bool b => cases b <;> simp [print]
  | arr xs => cases xs <;> simp [print]
  | obj fs => cases fs <;> simp [print]
  | _ => simp [print, stringText]

/-- What follows an element ends it. -/
theorem ends_elems (xs : List Json) (r : List Char) : Ends (printElems xs ++ r) := by
  cases xs <;> simp [printElems, Ends]

theorem ends_members (fs : List (String × Json)) (r : List Char) : Ends (printMembers fs ++ r) := by
  cases fs <;> simp [printMembers, Ends]

/-- No text is empty, so depth 0 is never asked of a document. -/
theorem print_pos (j : Json) : 0 < (print j).length := by
  cases j with
  | num n =>
    obtain ⟨c, hc, -⟩ := head_text n []
    cases hp : numberText n <;> simp_all [print]
  | bool b => cases b <;> simp [print]
  | arr xs => cases xs <;> simp [print]
  | obj fs => cases fs <;> simp [print]
  | _ => simp [print, stringText]

mutual

/-- **A document is read back**, with what follows it. The depth is that of the text, which
is longer than that of its parts. -/
theorem parse_print : ∀ (j : Json) (n : ℕ) (r : List Char), (print j).length ≤ n → Ends r →
    parse n (print j ++ r) = some (j, r)
  | j, 0, r, h, _ => absurd h (by have := print_pos j; omega)
  | .null, n + 1, r, _, _ => by simp [print, parse]
  | .bool true, n + 1, r, _, _ => by simp [print, parse]
  | .bool false, n + 1, r, _, _ => by simp [print, parse]
  | .num m, n + 1, r, _, hr => by
    obtain ⟨c, hc, h⟩ := head_text m r
    rw [print, parse_number hc h, parseNumber_text m hr]
  | .str s, n + 1, r, _, _ => by
    simp [print, stringText, parse, parseString_text]
  | .arr [], n + 1, r, _, _ => by simp [print, parse]
  | .arr (x :: xs), n + 1, r, h, _ => by
    simp only [print, List.length_cons, List.length_append] at h
    have hx := parse_print x n (printElems xs ++ r) (by omega) (ends_elems xs r)
    have hxs := parseElems_print xs n r (by omega)
    simp only [print, List.cons_append, List.append_assoc]
    rw [parse_arr (head_print x _), hx, Option.bind_some, hxs, Option.bind_some]
  | .obj [], n + 1, r, _, _ => by simp [print, parse]
  | .obj ((k, v) :: fs), n + 1, r, h, _ => by
    simp only [print, List.length_cons, List.length_append] at h
    have hv := parseMember_print k v n (printMembers fs ++ r) (by simp; omega) (ends_members fs r)
    have hfs := parseMembers_print fs n r (by omega)
    simp only [print, List.cons_append, List.append_assoc]
    rw [parse_obj (by simp [stringText]), hv, Option.bind_some, hfs, Option.bind_some]

theorem parseElems_print : ∀ (xs : List Json) (n : ℕ) (r : List Char), (printElems xs).length ≤ n →
    parseElems n (printElems xs ++ r) = some (xs, r)
  | [], 0, r, h => absurd h (by simp [printElems])
  | x :: xs, 0, r, h => absurd h (by simp [printElems])
  | [], n + 1, r, _ => by simp [printElems, parseElems]
  | x :: xs, n + 1, r, h => by
    simp only [printElems, List.length_cons, List.length_append] at h
    have hx := parse_print x n (printElems xs ++ r) (by omega) (ends_elems xs r)
    have hxs := parseElems_print xs n r (by omega)
    simp only [printElems, List.cons_append, List.append_assoc, parseElems, hx, hxs,
      Option.bind_eq_bind, Option.bind_some]

theorem parseMembers_print : ∀ (fs : List (String × Json)) (n : ℕ) (r : List Char),
    (printMembers fs).length ≤ n → parseMembers n (printMembers fs ++ r) = some (fs, r)
  | [], 0, r, h => absurd h (by simp [printMembers])
  | kv :: fs, 0, r, h => absurd h (by simp [printMembers])
  | [], n + 1, r, _ => by simp [printMembers, parseMembers]
  | (k, v) :: fs, n + 1, r, h => by
    simp only [printMembers, List.length_cons, List.length_append] at h
    have hv := parseMember_print k v n (printMembers fs ++ r) (by simp; omega) (ends_members fs r)
    have hfs := parseMembers_print fs n r (by omega)
    simp only [printMembers, List.cons_append, List.append_assoc, parseMembers, hv, hfs,
      Option.bind_eq_bind, Option.bind_some]

theorem parseMember_print : ∀ (k : String) (v : Json) (n : ℕ) (r : List Char),
    (stringText k ++ ':' :: print v).length ≤ n → Ends r →
    parseMember n (stringText k ++ ':' :: (print v ++ r)) = some ((k, v), r)
  | k, v, 0, r, h, _ => absurd h (by simp)
  | k, v, n + 1, r, h, hr => by
    simp only [stringText, List.length_cons, List.length_append] at h
    have hv := parse_print v n r (by omega) hr
    simp only [stringText, List.cons_append, List.append_assoc, List.nil_append, parseMember,
      parseString_text]
    simp [hv]

end

/-- **The text of a document parses to it.** -/
theorem ofText_toText (j : Json) : ∃ s, toText j = some s ∧ ofText s = some j := by
  refine ⟨_, rfl, ?_⟩
  have h := parse_print j ((print j).length + 1) [] (by omega) (by simp [Ends])
  rw [List.append_nil] at h
  simp only [ofText, String.toList_ofList, h]

end Yali.Text
