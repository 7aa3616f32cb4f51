import Mathlib.Data.List.Infix
import Mathlib.Data.List.Lex
import Mathlib.Data.List.Sort
import Mathlib.Data.Nat.Basic

/-!
# ECMAScript strings

`trim`, `startsWith` and friends on strings of Unicode scalar values, through
`toList` so that they evaluate in the kernel.
-/

namespace JsString

/-- WhiteSpace and LineTerminator, the characters `String.prototype.trim` strips. -/
def isWhiteSpace (c : Char) : Bool :=
  c.toNat ∈ [0x09, 0x0A, 0x0B, 0x0C, 0x0D, 0x20, 0xA0, 0x1680, 0x2028, 0x2029, 0x202F, 0x205F,
    0x3000, 0xFEFF] || (0x2000 ≤ c.toNat && c.toNat ≤ 0x200A)

def trimList (cs : List Char) : List Char :=
  (((cs.dropWhile isWhiteSpace).reverse).dropWhile isWhiteSpace).reverse

def trim (s : String) : String := String.ofList (trimList s.toList)

def startsWith (s p : String) : Bool := p.toList.isPrefixOf s.toList

/-- The UTF-16 code units, which `length` counts and the default sort compares. -/
def codeUnits (s : String) : List ℕ :=
  s.toList.flatMap fun c =>
    if c.toNat < 0x10000 then [c.toNat]
    else [0xD800 + (c.toNat - 0x10000) / 0x400, 0xDC00 + (c.toNat - 0x10000) % 0x400]

def length (s : String) : ℕ := (codeUnits s).length

/-- The order of `Array.prototype.toSorted` without a comparator. -/
def le (s t : String) : Prop := codeUnits s ≤ codeUnits t

instance : DecidableRel le := fun _ _ => inferInstanceAs (Decidable (_ ≤ _))

instance : IsTrans String le := ⟨fun _ _ _ => le_trans⟩

instance : Std.Total le := ⟨fun _ _ => le_total _ _⟩

def toSorted (l : List String) : List String := l.insertionSort le

theorem toSorted_toSorted (l : List String) : toSorted (toSorted l) = toSorted l :=
  (List.pairwise_insertionSort le l).insertionSort_eq

theorem mem_toSorted {s : String} {l : List String} : s ∈ toSorted l ↔ s ∈ l :=
  List.mem_insertionSort le

def join (separator : String) : List String → String
  | [] => ""
  | [s] => s
  | s :: l => s ++ separator ++ join separator l

/-- One character of `JSON.stringify` of a string. -/
def quoteChar (c : Char) : List Char :=
  match c.toNat with
  | 0x22 => ['\\', '"']
  | 0x5C => ['\\', '\\']
  | 0x08 => ['\\', 'b']
  | 0x0C => ['\\', 'f']
  | 0x0A => ['\\', 'n']
  | 0x0D => ['\\', 'r']
  | 0x09 => ['\\', 't']
  | n =>
    if n < 0x20 then ['\\', 'u', '0', '0', Nat.digitChar (n / 16), Nat.digitChar (n % 16)] else [c]

/-- `JSON.stringify` of a string. -/
def quote (s : String) : String :=
  "\"" ++ String.ofList (s.toList.flatMap quoteChar) ++ "\""

end JsString
