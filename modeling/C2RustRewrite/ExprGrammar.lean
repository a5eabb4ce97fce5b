/-
# The expression fragment of Rust's grammar

What the printer's text is read back with: Rust's expression grammar
restricted to the operators `Rewrite` builds, one level per precedence.

    cast    ::= prefix (" as usize")*
    prefix  ::= "&mut " prefix | "&" prefix | "*" prefix | postfix
    postfix ::= atom ("[" cast "]" | "[" cast " ..]")*
    atom    ::= "$e" | "$" digits | "0" | "(" cast ")"
              | "core::ptr::addr_of!(" cast ")" | "core::ptr::addr_of_mut!(" cast ")"

Each level is a function of a recursive-descent parser that returns the tree
and the text it did not read; `fuel` bounds the depth of the descent, and
`parse` gives it three calls for each character of the input, which is
always enough (`RoundTrip`). A postfix operator applies only to a postfix
expression: as in rustc, `e as usize[i]` is not an expression.

Key definitions: `parseCast`, `parsePrefix`, `parsePostfix`, `parseAtom`,
`postLoop`, `castLoop`, `parse`.
-/
import C2RustRewrite.Rewrite
import Mathlib.Tactic.Ring
import Mathlib.Data.Nat.Digits

namespace C2RustRewrite
namespace ExprGrammar

open Rewrite

/-- `tok` at the front of `s`: the text after it. -/
def stripTok : List Char → List Char → Option (List Char)
  | [], s => some s
  | c :: tok, d :: s => if c = d then stripTok tok s else none
  | _ :: _, [] => none

@[simp] theorem stripTok_append : ∀ (tok r : List Char), stripTok tok (tok ++ r) = some r
  | [], _ => rfl
  | c :: tok, r => by simp [stripTok, stripTok_append tok r]

theorem stripTok_cons_ne {c d : Char} (tok s : List Char) (h : c ≠ d) :
    stripTok (c :: tok) (d :: s) = none := by
  simp [stripTok, h]

/-- The run of decimal digits at the front of `s`, and the text after it. -/
def readDigits : List Char → List Char × List Char
  | c :: s => if c.isDigit then ((c :: (readDigits s).1), (readDigits s).2) else ([], c :: s)
  | [] => ([], [])

/-- The value of a run of decimal digits. -/
def digitsValue (ds : List Char) : ℕ := ds.foldl (fun n c => 10 * n + (c.toNat - '0'.toNat)) 0

/-- The text may follow a numeral: it does not start with a digit. -/
def NoDigit (r : List Char) : Prop := ∀ c, r.head? = some c → c.isDigit = false

theorem readDigits_append : ∀ (ds r : List Char), (∀ c ∈ ds, c.isDigit = true) → NoDigit r →
    readDigits (ds ++ r) = (ds, r)
  | [], [], _, _ => rfl
  | [], c :: r, _, hr => by simp [readDigits, hr c rfl]
  | d :: ds, r, hd, hr => by
    simp [readDigits, hd d (List.mem_cons_self _ _),
      readDigits_append ds r (fun c hc => hd c (List.mem_cons_of_mem _ hc)) hr]

/-! ### Numerals

`Sub(i, _)` prints `i` with `{}`, Rust's decimal `Display`; Lean's
`Nat.toDigits 10` is the same text. -/

theorem digitChar_facts : ∀ d, d < 10 →
    (Nat.digitChar d).isDigit = true ∧ (Nat.digitChar d).toNat - '0'.toNat = d := by
  decide

theorem toDigitsCore_spec : ∀ (f n : ℕ) (ds : List Char), n < f →
    ∃ pre, Nat.toDigitsCore 10 f n ds = pre ++ ds ∧ pre ≠ [] ∧ (∀ c ∈ pre, c.isDigit = true) ∧
      ∀ acc, pre.foldl (fun n c => 10 * n + (c.toNat - '0'.toNat)) acc = acc * 10 ^ pre.length + n
  | 0, _, _, h => absurd h (Nat.not_lt_zero _)
  | f + 1, n, ds, h => by
    have hd := digitChar_facts (n % 10) (Nat.mod_lt _ (by decide))
    by_cases h0 : n / 10 = 0
    · refine ⟨[Nat.digitChar (n % 10)], by simp [Nat.toDigitsCore, h0], by simp,
        by simpa using hd.1, fun acc => ?_⟩
      simp only [List.foldl, hd.2, List.length_singleton, Nat.pow_one]
      omega
    · obtain ⟨pre, hpre, -, hdig, hval⟩ :=
        toDigitsCore_spec f (n / 10) (Nat.digitChar (n % 10) :: ds) (by omega)
      refine ⟨pre ++ [Nat.digitChar (n % 10)], by simp [Nat.toDigitsCore, h0, hpre], by simp,
        fun c hc => ?_, fun acc => ?_⟩
      · rcases List.mem_append.mp hc with hc | hc
        · exact hdig c hc
        · rw [List.mem_singleton.mp hc]; exact hd.1
      · rw [List.foldl_append, hval]
        simp only [List.foldl, hd.2, List.length_append, List.length_singleton, Nat.pow_succ,
          ← Nat.mul_assoc]
        generalize acc * 10 ^ pre.length = X
        omega

/-- The decimal text of `i` is a nonempty run of digits worth `i`. -/
theorem toDigits_spec (i : ℕ) :
    Nat.toDigits 10 i ≠ [] ∧ (∀ c ∈ Nat.toDigits 10 i, c.isDigit = true) ∧
      digitsValue (Nat.toDigits 10 i) = i := by
  obtain ⟨pre, hpre, hne, hdig, hval⟩ := toDigitsCore_spec (i + 1) i [] (Nat.lt_succ_self i)
  rw [List.append_nil] at hpre
  simp only [Nat.toDigits, hpre, digitsValue, hval 0, zero_mul, zero_add]
  exact ⟨hne, hdig, trivial⟩

/-! ### The parser -/

/-- `addr_of!(` or `addr_of_mut!(` at the front of `s`. -/
def addrOfHead (s : List Char) : Option (Mutability × List Char) :=
  match stripTok (addrOfMacro .not ++ ['(']) s with
  | some r => some (.not, r)
  | none => (stripTok (addrOfMacro .mut ++ ['(']) s).map fun r => (.mut, r)

theorem addrOfHead_append (m : Mutability) (r : List Char) :
    addrOfHead (addrOfMacro m ++ '(' :: r) = some (m, r) := by
  have e : addrOfMacro m ++ '(' :: r = (addrOfMacro m ++ ['(']) ++ r := by simp
  cases m
  · simp only [addrOfHead, e, stripTok_append]
  · have h : stripTok (addrOfMacro .not ++ ['(']) (addrOfMacro .mut ++ ['('] ++ r) = none := rfl
    simp only [addrOfHead, h, e, stripTok_append, Option.map_some']

/-- The loop `(" as usize")*` of the cast level. -/
def castLoop : Rewrite → List Char → Rewrite × List Char
  | a, ' ' :: 'a' :: 's' :: ' ' :: 'u' :: 's' :: 'i' :: 'z' :: 'e' :: r => castLoop (castUsize a) r
  | a, r => (a, r)

@[simp] theorem castLoop_cast (a : Rewrite) (r : List Char) :
    castLoop a (" as usize".toList ++ r) = castLoop (castUsize a) r := rfl

mutual
/-- The cast level: a prefix expression, then ` as usize` as often as it comes. -/
def parseCast : ℕ → List Char → Option (Rewrite × List Char)
  | 0, _ => none
  | n + 1, s => (parsePrefix n s).map fun p => castLoop p.1 p.2

/-- The prefix level: `&mut `, `&` and `*` in front of a prefix expression. -/
def parsePrefix : ℕ → List Char → Option (Rewrite × List Char)
  | 0, _ => none
  | n + 1, '&' :: s =>
    match stripTok "mut ".toList s with
    | some s' => (parsePrefix n s').map fun p => (ref p.1 .mut, p.2)
    | none => (parsePrefix n s).map fun p => (ref p.1 .not, p.2)
  | n + 1, '*' :: s => (parsePrefix n s).map fun p => (deref p.1, p.2)
  | n + 1, s => parsePostfix n s

/-- The postfix level: an atom, then its index operators. -/
def parsePostfix : ℕ → List Char → Option (Rewrite × List Char)
  | 0, _ => none
  | n + 1, s =>
    match parseAtom n s with
    | some (a, r) => postLoop n a r
    | none => none

/-- The loop `("[" cast "]" | "[" cast " ..]")*` after the expression `a`. -/
def postLoop : ℕ → Rewrite → List Char → Option (Rewrite × List Char)
  | 0, _, _ => none
  | n + 1, a, '[' :: s =>
    match parseCast n s with
    | some (i, ']' :: r) => postLoop n (index a i) r
    | some (i, ' ' :: '.' :: '.' :: ']' :: r) => postLoop n (sliceTail a i) r
    | _ => none
  | _ + 1, a, s => some (a, s)

/-- The atoms: the leaves, a parenthesized expression and the `addr_of` macros. -/
def parseAtom : ℕ → List Char → Option (Rewrite × List Char)
  | 0, _ => none
  | n + 1, '(' :: s =>
    match parseCast n s with
    | some (a, ')' :: r) => some (a, r)
    | _ => none
  | _ + 1, '$' :: 'e' :: r => some (identity, r)
  | _ + 1, '$' :: s =>
    match readDigits s with
    | ([], _) => none
    | (ds, r) => some (sub (digitsValue ds) Span.dummy, r)
  | _ + 1, '0' :: r => some (litZero, r)
  | n + 1, s =>
    match addrOfHead s with
    | some (m, s') =>
      match parseCast n s' with
      | some (a, ')' :: r) => some (addrOf a m, r)
      | _ => none
    | none => none
end

/-- Read a whole text as one expression. -/
def parse (s : String) : Option Rewrite :=
  match parseCast (3 * s.length + 5) s.toList with
  | some (t, []) => some t
  | _ => none

/-! ### One step of each level -/

theorem postLoop_stop (n : ℕ) (a : Rewrite) {r : List Char} (h : r.head? ≠ some '[') :
    postLoop (n + 1) a r = some (a, r) := by
  match r with
  | [] => rfl
  | c :: r =>
    have hc : c ≠ '[' := fun hc => h (by rw [hc]; rfl)
    simp [postLoop, hc]

theorem parsePrefix_refMut (n : ℕ) (s : List Char) :
    parsePrefix (n + 1) ("&mut ".toList ++ s) = (parsePrefix n s).map fun p => (ref p.1 .mut, p.2) :=
  rfl

theorem parsePrefix_refNot (n : ℕ) {s : List Char} (h : stripTok "mut ".toList s = none) :
    parsePrefix (n + 1) ('&' :: s) = (parsePrefix n s).map fun p => (ref p.1 .not, p.2) := by
  have h' : stripTok ['m', 'u', 't', ' '] s = none := h
  simp [parsePrefix, h']

theorem parsePrefix_deref (n : ℕ) (s : List Char) :
    parsePrefix (n + 1) ('*' :: s) = (parsePrefix n s).map fun p => (deref p.1, p.2) := rfl

theorem parsePrefix_other (n : ℕ) {c : Char} (s : List Char) (h1 : c ≠ '&') (h2 : c ≠ '*') :
    parsePrefix (n + 1) (c :: s) = parsePostfix n (c :: s) := by
  simp [parsePrefix, h1, h2]

theorem parsePostfix_succ (n : ℕ) (s : List Char) :
    parsePostfix (n + 1) s = (parseAtom n s).bind fun p => postLoop n p.1 p.2 := by
  simp only [parsePostfix]
  cases parseAtom n s <;> rfl

theorem postLoop_index {n : ℕ} {s r : List Char} {i : Rewrite} (a : Rewrite)
    (h : parseCast n s = some (i, ']' :: r)) :
    postLoop (n + 1) a ('[' :: s) = postLoop n (index a i) r := by
  simp [postLoop, h]

theorem postLoop_sliceTail {n : ℕ} {s r : List Char} {i : Rewrite} (a : Rewrite)
    (h : parseCast n s = some (i, " ..]".toList ++ r)) :
    postLoop (n + 1) a ('[' :: s) = postLoop n (sliceTail a i) r := by
  simp only [postLoop, h]
  rfl

theorem parseAtom_paren {n : ℕ} {s r : List Char} {a : Rewrite}
    (h : parseCast n s = some (a, ')' :: r)) : parseAtom (n + 1) ('(' :: s) = some (a, r) := by
  simp [parseAtom, h]

theorem parseAtom_addrOf {n : ℕ} {s r : List Char} {a : Rewrite} (m : Mutability)
    (h : parseCast n s = some (a, ')' :: r)) :
    parseAtom (n + 1) (addrOfMacro m ++ '(' :: s) = some (addrOf a m, r) := by
  have e : ∀ t, parseAtom (n + 1) (addrOfMacro m ++ t) =
      match addrOfHead (addrOfMacro m ++ t) with
      | some (m, s') =>
        match parseCast n s' with
        | some (a, ')' :: r) => some (addrOf a m, r)
        | _ => none
      | none => none := by
    cases m <;> intro t <;> rfl
  rw [e, addrOfHead_append]
  simp [h]

/-- A numeral: `$` and a nonempty run of digits. -/
theorem parseAtom_num (n : ℕ) {ds r : List Char} (hne : ds ≠ []) (hdig : ds.all Char.isDigit = true)
    (h : NoDigit r) : parseAtom (n + 1) ('$' :: ds ++ r) = some (sub (digitsValue ds) Span.dummy, r) := by
  have hdig := List.all_eq_true.1 hdig
  obtain ⟨c, cs, rfl⟩ := List.exists_cons_of_ne_nil hne
  have he : c ≠ 'e' := by
    have := hdig c (by simp)
    rintro rfl
    exact absurd this (by decide)
  have hr := readDigits_append _ _ hdig h
  have e : parseAtom (n + 1) ('$' :: c :: (cs ++ r)) =
      match readDigits (c :: (cs ++ r)) with
      | ([], _) => none
      | (ds, r) => some (sub (digitsValue ds) Span.dummy, r) := by
    rw [parseAtom]
    simp [he]
  rw [List.cons_append, List.cons_append, e, ← List.cons_append, hr]

end ExprGrammar

end C2RustRewrite
