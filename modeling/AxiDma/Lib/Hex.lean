/-! # Words and integers in text, as Python reads and writes them

`splitWords` is `str.split()`, `formatHex` is `"%0*x"` and `readHex` is `int(s, 16)` of a word.
A formatted integer has no space in it and is read back.
-/

namespace AxiDma.Lib

/-! ## Words -/

/-- `c.isspace()`. -/
def isSpace (c : Char) : Bool :=
  let n := c.toNat
  (9 ≤ n && n ≤ 13) || (0x1C ≤ n && n ≤ 0x20) || n == 0x85 || n == 0xA0 || n == 0x1680 ||
    (0x2000 ≤ n && n ≤ 0x200A) || n == 0x2028 || n == 0x2029 || n == 0x202F || n == 0x205F ||
    n == 0x3000

/-- `line.split()`: the longest pieces without space. -/
def splitWords (line : List Char) : List (List Char) := (line.splitOnP isSpace).filter (· ≠ [])

/-- Words with one blank between them are split again. -/
theorem splitWords_intercalate {words : List (List Char)} (some : words ≠ [])
    (plain : ∀ word ∈ words, word ≠ [] ∧ ∀ c ∈ word, isSpace c = false) :
    splitWords ([' '].intercalate words) = words := by
  have pieces : ([' '].intercalate words).splitOnP isSpace = words := by
    induction words with
    | nil => exact absurd rfl some
    | cons word words ih =>
      have here := (plain word List.mem_cons_self).2
      cases words with
      | nil =>
        rw [List.intercalate_singleton]
        exact List.splitOnP_eq_singleton here
      | cons next words =>
        rw [List.intercalate_cons_cons, List.append_assoc, List.singleton_append,
          List.splitOnP_append_cons_of_forall_mem here ' ' (by decide),
          ih (List.cons_ne_nil _ _) fun w member => plain w (List.mem_cons_of_mem _ member)]
  rw [splitWords, pieces, List.filter_eq_self]
  intro word member
  exact decide_eq_true (plain word member).1

/-! ## Digits -/

/-- The zeros of the decimal digits of Unicode; each is followed by its 1 to 9. -/
def decimalZeros : List Nat :=
  [0x30, 0x660, 0x6F0, 0x7C0, 0x966, 0x9E6, 0xA66, 0xAE6, 0xB66, 0xBE6, 0xC66, 0xCE6, 0xD66,
    0xDE6, 0xE50, 0xED0, 0xF20, 0x1040, 0x1090, 0x17E0, 0x1810, 0x1946, 0x19D0, 0x1A80, 0x1A90,
    0x1B50, 0x1BB0, 0x1C40, 0x1C50, 0xA620, 0xA8D0, 0xA900, 0xA9D0, 0xA9F0, 0xAA50, 0xABF0,
    0xFF10, 0x104A0, 0x10D30, 0x11066, 0x110F0, 0x11136, 0x111D0, 0x112F0, 0x11450, 0x114D0,
    0x11650, 0x116C0, 0x11730, 0x118E0, 0x11950, 0x11C50, 0x11D50, 0x11DA0, 0x16A60, 0x16AC0,
    0x16B50, 0x1D7CE, 0x1D7D8, 0x1D7E2, 0x1D7EC, 0x1D7F6, 0x1E140, 0x1E2F0, 0x1E950, 0x1FBF0]

/-- `int` takes every decimal digit as the ASCII one. -/
def asciiDigit (c : Char) : Char :=
  match decimalZeros.find? fun z => z ≤ c.toNat && c.toNat < z + 10 with
  | some z => Char.ofNat (0x30 + (c.toNat - z))
  | none => c

def hexValue (c : Char) : Option Nat :=
  if 48 ≤ c.toNat ∧ c.toNat ≤ 57 then some (c.toNat - 48)
  else if 97 ≤ c.toNat ∧ c.toNat ≤ 102 then some (c.toNat - 87)
  else if 65 ≤ c.toNat ∧ c.toNat ≤ 70 then some (c.toNat - 55)
  else none

theorem hexValue_digitChar : ∀ n < 16, hexValue n.digitChar = some n := by decide

/-- The value of `cs` behind digits of value `v`. -/
def readDigits (v : Nat) (cs : List Char) : Option Nat :=
  cs.foldlM (fun v c => (hexValue c).map (16 * v + ·)) v

theorem readDigits_append (v : Nat) (cs ds : List Char) :
    readDigits v (cs ++ ds) = (readDigits v cs).bind fun u => readDigits u ds := by
  rw [readDigits, List.foldlM_append]
  rfl

theorem readDigits_digitChar {n : Nat} (small : n < 16) (v : Nat) :
    readDigits v [n.digitChar] = some (16 * v + n) := by
  simp [readDigits, hexValue_digitChar n small]

theorem readDigits_toDigits (n : Nat) : readDigits 0 (Nat.toDigits 16 n) = some n := by
  induction n using Nat.base_induction 16 (by decide) with
  | single m small =>
    rw [Nat.toDigits_of_lt_base small, readDigits_digitChar small, Nat.mul_zero, Nat.zero_add]
  | digit m k small pos ih =>
    rw [← Nat.toDigits_append_toDigits (by decide) pos small, readDigits_append, ih,
      Nat.toDigits_of_lt_base small, Option.bind_some, readDigits_digitChar small]

theorem readDigits_zeros (k : Nat) : readDigits 0 (List.replicate k '0') = some 0 := by
  induction k with
  | zero => rfl
  | succ k ih =>
    rw [List.replicate_succ, ← List.singleton_append, readDigits_append]
    exact ih

/-! ## Integers -/

def hexDigits (width n : Nat) : List Char :=
  let digits := Nat.toDigits 16 n
  List.replicate (width - digits.length) '0' ++ digits

/-- `"%0*x" % (width, x)`. -/
def formatHex (width : Nat) (x : Int) : List Char :=
  if x < 0 then '-' :: hexDigits (width - 1) (-x).toNat else hexDigits width x.toNat

/-- Digits behind a number of value `v`, where a digit may follow an underscore. -/
def readGroups (v : Nat) : List Char → Option Nat
  | [] => some v
  | '_' :: c :: cs => (hexValue c).bind fun d => readGroups (16 * v + d) cs
  | c :: cs => (hexValue c).bind fun d => readGroups (16 * v + d) cs

/-- The text behind `0x` or `0X`, and behind one underscore after it. -/
def dropPrefix : List Char → List Char
  | '0' :: 'x' :: '_' :: cs | '0' :: 'X' :: '_' :: cs => cs
  | '0' :: 'x' :: cs | '0' :: 'X' :: cs => cs
  | cs => cs

/-- A number without its sign; it starts with a digit. -/
def readMagnitude (cs : List Char) : Option Nat :=
  match dropPrefix cs with
  | [] => none
  | c :: ds => (hexValue c).bind fun d => readGroups d ds

/-- `int(s, 16)` of a word; `none` is the `ValueError`. -/
def readHex (cs : List Char) : Option Int :=
  match cs.map asciiDigit with
  | '-' :: ds => (readMagnitude ds).map fun n => -Int.ofNat n
  | '+' :: ds => (readMagnitude ds).map Int.ofNat
  | ds => (readMagnitude ds).map Int.ofNat

/-- Digits without underscores. -/
theorem readGroups_eq {v : Nat} {cs : List Char} (digits : ∀ c ∈ cs, (hexValue c).isSome = true) :
    readGroups v cs = readDigits v cs := by
  induction cs generalizing v with
  | nil => rfl
  | cons c cs ih =>
    obtain ⟨d, value⟩ := Option.isSome_iff_exists.mp (digits c List.mem_cons_self)
    have plain : c ≠ '_' := by
      rintro rfl
      cases value
    have rest := ih (v := 16 * v + d) fun c member => digits c (List.mem_cons_of_mem _ member)
    rw [readGroups.eq_3 _ _ _ (fun _ _ same => absurd same plain), value, Option.bind_some, rest]
    simp [readDigits, value]

theorem readDigits_hexDigits (width n : Nat) : readDigits 0 (hexDigits width n) = some n := by
  rw [hexDigits, readDigits_append, readDigits_zeros, Option.bind_some, readDigits_toDigits]

theorem hexDigits_ne_nil (width n : Nat) : hexDigits width n ≠ [] :=
  List.append_ne_nil_of_right_ne_nil _ Nat.toDigits_ne_nil

/-- Every character is a digit. -/
theorem hexValue_of_mem {width n : Nat} {c : Char} (member : c ∈ hexDigits width n) :
    (hexValue c).isSome = true := by
  have digits (m : Nat) : ∀ c ∈ Nat.toDigits 16 m, (hexValue c).isSome = true := by
    induction m using Nat.base_induction 16 (by decide) with
    | single m small =>
      rw [Nat.toDigits_of_lt_base small]
      intro c only
      rw [List.mem_singleton.mp only, hexValue_digitChar m small]
      rfl
    | digit m k small pos ih =>
      rw [← Nat.toDigits_append_toDigits (by decide) pos small, Nat.toDigits_of_lt_base small]
      intro c either
      rcases List.mem_append.mp either with early | last
      · exact ih c early
      · rw [List.mem_singleton.mp last, hexValue_digitChar k small]
        rfl
  rcases List.mem_append.mp member with zero | digit
  · rw [(List.mem_replicate.mp zero).2]
    rfl
  · exact digits n c digit

/-- A digit that has a value in base 16 is an ASCII digit or letter. -/
theorem plain_of_hexValue {c : Char} (digit : (hexValue c).isSome = true) :
    asciiDigit c = c ∧ isSpace c = false := by
  have table : ∀ n < 103, (hexValue (Char.ofNat n)).isSome = true →
      asciiDigit (Char.ofNat n) = Char.ofNat n ∧ isSpace (Char.ofNat n) = false := by decide
  have low : c.toNat < 103 := by
    simp only [hexValue] at digit
    split at digit
    · omega
    · split at digit
      · omega
      · split at digit
        · omega
        · cases digit
  rw [← Char.ofNat_toNat c] at digit ⊢
  exact table c.toNat low digit

theorem map_asciiDigit_hexDigits (width n : Nat) :
    (hexDigits width n).map asciiDigit = hexDigits width n := by
  have same : (hexDigits width n).map asciiDigit = (hexDigits width n).map id :=
    List.map_congr_left fun c member => (plain_of_hexValue (hexValue_of_mem member)).1
  rw [same, List.map_id]

/-- Digits are not taken for a prefix. -/
theorem dropPrefix_hexDigits (width n : Nat) : dropPrefix (hexDigits width n) = hexDigits width n := by
  have digits : ∀ c ∈ hexDigits width n, c ≠ 'x' ∧ c ≠ 'X' := by
    intro c member
    have value := hexValue_of_mem member
    constructor <;> rintro rfl <;> exact absurd value (by decide)
  cases text : hexDigits width n with
  | nil => rfl
  | cons c cs =>
    cases cs with
    | nil => simp [dropPrefix]
    | cons d ds =>
      obtain ⟨lower, upper⟩ := digits d (by simp [text])
      simp [dropPrefix, lower, upper]

theorem readMagnitude_hexDigits (width n : Nat) : readMagnitude (hexDigits width n) = some n := by
  have value := readDigits_hexDigits width n
  rw [readMagnitude, dropPrefix_hexDigits]
  cases text : hexDigits width n with
  | nil => exact absurd text (hexDigits_ne_nil _ _)
  | cons c cs =>
    have digits : ∀ c' ∈ c :: cs, (hexValue c').isSome = true := by
      intro c' member
      exact hexValue_of_mem (text ▸ member)
    obtain ⟨d, first⟩ := Option.isSome_iff_exists.mp (digits c List.mem_cons_self)
    rw [text] at value
    dsimp only
    rw [first, Option.bind_some, readGroups_eq fun c' member => digits c' (List.mem_cons_of_mem _ member),
      ← value]
    simp [readDigits, first]

theorem readHex_formatHex (width : Nat) (x : Int) : readHex (formatHex width x) = some x := by
  rw [formatHex]
  split
  · have value := readMagnitude_hexDigits (width - 1) (-x).toNat
    rw [readHex, List.map_cons, map_asciiDigit_hexDigits, show asciiDigit '-' = '-' from by decide]
    change (readMagnitude (hexDigits (width - 1) (-x).toNat)).map _ = some x
    rw [value, Option.map_some, Int.ofNat_eq_natCast]
    congr 1
    omega
  · have value := readMagnitude_hexDigits width x.toNat
    have signless : ∀ c ∈ hexDigits width x.toNat, c ≠ '-' ∧ c ≠ '+' := by
      intro c member
      have digit := hexValue_of_mem member
      constructor <;> rintro rfl <;> exact absurd digit (by decide)
    rw [readHex, map_asciiDigit_hexDigits]
    split
    · rename_i text
      exact absurd rfl (signless '-' (by simp [text])).1
    · rename_i text
      exact absurd rfl (signless '+' (by simp [text])).2
    · rw [value, Option.map_some, Int.ofNat_eq_natCast]
      congr 1
      omega

example : readHex ['0', 'X', '_', '1', 'f'] = some 31 := by decide

example : readHex ['1', '_'] = none := by decide

theorem isSpace_of_mem_formatHex {width : Nat} {x : Int} {c : Char} (member : c ∈ formatHex width x) :
    isSpace c = false := by
  have digits {w n : Nat} {c : Char} (member : c ∈ hexDigits w n) : isSpace c = false :=
    (plain_of_hexValue (hexValue_of_mem member)).2
  rw [formatHex] at member
  split at member
  · rcases List.mem_cons.mp member with rfl | digit
    · decide
    · exact digits digit
  · exact digits member

theorem formatHex_ne_nil (width : Nat) (x : Int) : formatHex width x ≠ [] := by
  intro none
  have value := readHex_formatHex width x
  rw [none] at value
  cases value

end AxiDma.Lib
