/-
# The HIR-level rewrite tree and its pretty-printer

`Rewrite` is the concrete, source-level replacement of `rewrite/mod.rs`:
expression builders (`ref`, `deref`, `index`, ...) and type builders
(`tyPtr`, `tyCtor`, ...) over leaves that keep the original expression
(`identity`) or one of its subexpressions (`sub`). `Rewrite.pretty` prints a
tree at a context precedence, inserting parentheses through
`parenthesizeIf`; `Display` prints at precedence 0 (`Rewrite.toString`).

The formatter only appends text, and writing into a `String` never fails, so
`pretty` returns the characters it writes.

The type builders print a constructor's arguments one after another, with
no separator (`Rewrite.prettyList`): two different type trees can print the
same text (`tyCtor_pretty_collision`).

Key definitions: `Rewrite`, `Rewrite.pretty`, `Rewrite.toString`,
`Rewrite.isExpr`, `Rewrite.eraseSpans`.
-/
import Mathlib.Data.List.Basic

namespace C2RustRewrite

/-- `rustc_span::Span`, as the byte range it covers. -/
structure Span where
  lo : ℕ
  hi : ℕ
  deriving DecidableEq, Repr

/-- `rustc_span::DUMMY_SP`. -/
def Span.dummy : Span := ⟨0, 0⟩

/-- `rustc_hir::Mutability`. -/
inductive Mutability
  | not
  | mut
  deriving DecidableEq, Repr

/-- `rewrite::Rewrite`. -/
inductive Rewrite where
  /-- Take the original expression unchanged. -/
  | identity
  /-- Extract the subexpression at the given index. -/
  | sub (i : ℕ) (span : Span)
  /-- `&e`, `&mut e` -/
  | ref (rw : Rewrite) (mutbl : Mutability)
  /-- `core::ptr::addr_of!(e)`, `core::ptr::addr_of_mut!(e)` -/
  | addrOf (rw : Rewrite) (mutbl : Mutability)
  /-- `*e` -/
  | deref (rw : Rewrite)
  /-- `arr[idx]` -/
  | index (arr idx : Rewrite)
  /-- `arr[idx..]` -/
  | sliceTail (arr idx : Rewrite)
  /-- `e as usize` -/
  | castUsize (rw : Rewrite)
  /-- The integer literal `0`. -/
  | litZero
  /-- Emit a complete pretty-printed type, discarding the original annotation. -/
  | printTy (s : String)
  /-- `*const T`, `*mut T` -/
  | tyPtr (rw : Rewrite) (mutbl : Mutability)
  /-- `&T`, `&mut T` -/
  | tyRef (rw : Rewrite) (mutbl : Mutability)
  /-- `[T]` -/
  | tySlice (rw : Rewrite)
  /-- `Foo<T1, T2>` -/
  | tyCtor (name : String) (rws : List Rewrite)
  deriving Repr

namespace Rewrite

/-- `parenthesize_if`: wrap `inner` in parentheses when `cond` holds. -/
def parenthesizeIf (cond : Bool) (inner : List Char) : List Char :=
  if cond then '(' :: inner ++ [')'] else inner

/-- The prefix of a reference, expression or type: `&` or `&mut `. -/
def refPrefix : Mutability → List Char
  | .not => ['&']
  | .mut => "&mut ".toList

/-- The macro path of `AddrOf`. -/
def addrOfMacro : Mutability → List Char
  | .not => "core::ptr::addr_of!".toList
  | .mut => "core::ptr::addr_of_mut!".toList

/-- The prefix of a raw pointer type. -/
def ptrPrefix : Mutability → List Char
  | .not => "*const ".toList
  | .mut => "*mut ".toList

mutual
/-- `Rewrite::pretty`: the text of `rw` in a context of precedence `prec`.
Index and SliceTail have precedence 3, Ref and Deref 2, CastUsize 1. -/
def pretty : Rewrite → ℕ → List Char
  | identity, _ => "$e".toList
  | sub i _, _ => '$' :: Nat.toDigits 10 i
  | ref rw mutbl, prec => parenthesizeIf (prec > 2) (refPrefix mutbl ++ rw.pretty 2)
  | addrOf rw mutbl, _ => addrOfMacro mutbl ++ '(' :: rw.pretty 0 ++ [')']
  | deref rw, prec => parenthesizeIf (prec > 2) ('*' :: rw.pretty 2)
  | index arr idx, prec =>
    parenthesizeIf (prec > 3) (arr.pretty 3 ++ '[' :: idx.pretty 0 ++ [']'])
  | sliceTail arr idx, prec =>
    -- Rather than figure out the right precedence for `..`, the source forces
    -- parenthesization of the index.
    parenthesizeIf (prec > 3) (arr.pretty 3 ++ '[' :: idx.pretty 999 ++ " ..]".toList)
  | castUsize rw, prec => parenthesizeIf (prec > 1) (rw.pretty 1 ++ " as usize".toList)
  | litZero, _ => ['0']
  | printTy s, _ => s.toList
  | tyPtr rw mutbl, _ => ptrPrefix mutbl ++ rw.pretty 0
  | tyRef rw mutbl, _ => refPrefix mutbl ++ rw.pretty 0
  | tySlice rw, _ => '[' :: rw.pretty 0 ++ [']']
  | tyCtor name rws, _ => name.toList ++ '<' :: prettyList rws ++ ['>']

/-- The loop `for rw in rws { rw.pretty(f, 0)?; }` of `TyCtor`. -/
def prettyList : List Rewrite → List Char
  | [] => []
  | rw :: rws => rw.pretty 0 ++ prettyList rws
end

/-- `impl Display for Rewrite`: `pretty` at precedence 0. -/
def toString (rw : Rewrite) : String := ⟨rw.pretty 0⟩

/-- The source's `rewrite_pretty_precedence` test. -/
example :
    (ref (index identity identity) .not).toString = "&$e[$e]" ∧
    (index (ref identity .not) (ref identity .not)).toString = "(&$e)[&$e]" ∧
    (castUsize (ref identity .not)).toString = "&$e as usize" ∧
    (ref (castUsize identity) .not).toString = "&($e as usize)" ∧
    (castUsize (index identity identity)).toString = "$e[$e] as usize" ∧
    (index (castUsize identity) (castUsize identity)).toString = "($e as usize)[$e as usize]" ∧
    (index (index identity identity) identity).toString = "$e[$e][$e]" := by
  decide

/-! ### The type builders collide

`TyCtor`'s doc comment reads `Foo<T1, T2>`, but the loop writes the
arguments with nothing between them. -/

/-- `Foo<i32, u8>` and `Foo<i32u8>` print the same text. -/
theorem tyCtor_pretty_collision :
    (tyCtor "Foo" [printTy "i32", printTy "u8"]).toString = "Foo<i32u8>" ∧
      (tyCtor "Foo" [printTy "i32u8"]).toString = "Foo<i32u8>" := by
  constructor <;> decide

/-! ### The expression family -/

/-- The trees built from the expression builders only. -/
def isExpr : Rewrite → Bool
  | identity | sub .. | litZero => true
  | ref rw _ | addrOf rw _ | deref rw | castUsize rw => rw.isExpr
  | index arr idx | sliceTail arr idx => arr.isExpr && idx.isExpr
  | printTy _ | tyPtr .. | tyRef .. | tySlice _ | tyCtor .. => false

/-- The tree with every `sub` span replaced by `DUMMY_SP`: what its text keeps. -/
def eraseSpans : Rewrite → Rewrite
  | identity => identity
  | sub i _ => sub i Span.dummy
  | ref rw m => ref rw.eraseSpans m
  | addrOf rw m => addrOf rw.eraseSpans m
  | deref rw => deref rw.eraseSpans
  | index arr idx => index arr.eraseSpans idx.eraseSpans
  | sliceTail arr idx => sliceTail arr.eraseSpans idx.eraseSpans
  | castUsize rw => castUsize rw.eraseSpans
  | litZero => litZero
  | t => t

end Rewrite

end C2RustRewrite
